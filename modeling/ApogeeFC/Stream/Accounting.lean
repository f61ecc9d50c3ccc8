import ApogeeFC.Stream.Push

/-!
# Accounting for the bytes of a stream

Bytes leave the buffer in seven places. Those of a frame and those counted as noise are reported; a
rejected candidate is reported as a whole, but what `rescan` drops of it is not counted anywhere.
`Balanced` is the balance of what went in against what was reported, and of the bytes lost against the
candidates rejected; `Drives.balanced` and `Feeds.balanced` draw it up for the loop and for one byte,
`every_byte_accounted` for whole streams.

An event gives the number of bytes of its frame. That the array of the frame holds as many is a
property of the decoder (`pushByte_fits`), without which `view` would say less than `size`.
-/

namespace ApogeeFC.Stream
open Buffer Codec Mealy

/-- The sum of `frame.size` over the events of a status. -/
def frameBytes (status : FrameStreamStatus) (calls : List HandlerCall) : Nat :=
  (calls.map fun c => if c.event.status = status then c.event.frame.size else 0).sum

/-- The sum of `discarded_bytes` over the `NoiseDiscarded` events. -/
def discardedBytes (calls : List HandlerCall) : Nat :=
  (calls.map fun c => if c.event.status = .noiseDiscarded then c.event.discardedBytes else 0).sum

/-- The number of `FrameRejected` events. -/
def rejections (calls : List HandlerCall) : Nat :=
  (calls.map fun c => if c.event.status = .frameRejected then 1 else 0).sum

/-- The bytes of the frame a report delivers. -/
@[simp] def Report.decoded : Report → Nat
  | .frameDecoded _ frame => frame.length
  | _ => 0

/-- The bytes a report counts as noise. -/
@[simp] def Report.noise : Report → Nat
  | .noiseDiscarded _ count => count
  | _ => 0

/-- The bytes a report gives up as truncated. -/
@[simp] def Report.cut : Report → Nat
  | .truncated _ bytes => bytes.length
  | _ => 0

/-- One for a rejected candidate. -/
@[simp] def Report.rejected : Report → Nat
  | .frameRejected _ _ _ => 1
  | _ => 0

/-- The array of the frame holds the bytes of its size. -/
def FitsFrame (call : HandlerCall) : Prop := call.event.frame.size ≤ maximumFrameSize

section Fits
variable {d d' : FrameStreamDecoder} {calls : List HandlerCall}

lemma fits_emitNoise (count : Nat) : FitsFrame (d.emitNoise count) := Nat.zero_le _

lemma copyFrame_fits {frame : EncodedFrame} (h : d.copyFrame = some frame) :
    frame.size ≤ maximumFrameSize := by
  obtain ⟨bytes, hcopy, h⟩ := Option.bind_eq_some_iff.mp h
  cases h
  exact le_of_copyN hcopy

lemma reject_fits {status : DecodeStatus} (h : d.reject status = some (d', calls)) :
    ∀ c ∈ calls, FitsFrame c := by
  obtain ⟨frame, hframe, h⟩ := Option.bind_eq_some_iff.mp h
  obtain ⟨d1, -, h⟩ := Option.bind_eq_some_iff.mp h
  cases h
  exact List.forall_mem_singleton.mpr (copyFrame_fits hframe)

lemma alignToSync_fits (h : d.alignToSync = some (d', calls)) : ∀ c ∈ calls, FitsFrame c := by
  rw [FrameStreamDecoder.alignToSync] at h
  split at h
  · cases h
    simp
  obtain ⟨offset, -, h⟩ := Option.bind_eq_some_iff.mp h
  split at h
  · split at h
    · obtain ⟨d1, -, h⟩ := Option.bind_eq_some_iff.mp h
      cases h
      exact List.forall_mem_singleton.mpr (fits_emitNoise _)
    · cases h
      simp
  · obtain ⟨byte, -, h⟩ := Option.bind_eq_some_iff.mp h
    split at h
    · obtain ⟨d1, -, h⟩ := Option.bind_eq_some_iff.mp h
      cases h
      exact List.forall_mem_singleton.mpr (fits_emitNoise _)
    · cases h
      exact List.forall_mem_singleton.mpr (fits_emitNoise _)

lemma deliver_fits (he : d.expectedSize ≤ maximumFrameSize) (h : d.deliver = some (d', calls)) :
    ∀ c ∈ calls, FitsFrame c := by
  obtain ⟨frame, -, h⟩ := Option.bind_eq_some_iff.mp h
  obtain ⟨d1, -, h⟩ := Option.bind_eq_some_iff.mp h
  obtain ⟨⟨d2, more⟩, halign, h⟩ := Option.bind_eq_some_iff.mp h
  cases h
  rw [List.forall_mem_cons]
  exact ⟨he, alignToSync_fits halign⟩

lemma processRound_fits {again : Bool} (h : d.processRound = some (again, d', calls)) :
    ∀ c ∈ calls, FitsFrame c := by
  rw [FrameStreamDecoder.processRound] at h
  split at h
  · cases h
    simp
  obtain ⟨low, -, h⟩ := Option.bind_eq_some_iff.mp h
  obtain ⟨high, -, h⟩ := Option.bind_eq_some_iff.mp h
  dsimp only at h
  split at h
  · obtain ⟨⟨d1, calls1⟩, hreject, h⟩ := Option.bind_eq_some_iff.mp h
    cases h
    exact reject_fits hreject
  split at h
  · cases h
    simp
  obtain ⟨candidate, hslice, h⟩ := Option.bind_eq_some_iff.mp h
  split at h
  · obtain ⟨⟨d1, calls1⟩, hdeliver, h⟩ := Option.bind_eq_some_iff.mp h
    cases h
    exact deliver_fits (le_of_slice hslice) hdeliver
  · obtain ⟨⟨d1, calls1⟩, hreject, h⟩ := Option.bind_eq_some_iff.mp h
    cases h
    exact reject_fits hreject

lemma processBuffer_fits {rounds : Nat} (h : d.processBuffer rounds = some (d', calls)) :
    ∀ c ∈ calls, FitsFrame c := by
  induction rounds generalizing d calls with
  | zero => cases h
  | succ rounds ih =>
    obtain ⟨⟨again, d1, calls1⟩, hround, h⟩ := Option.bind_eq_some_iff.mp h
    dsimp only at h
    split at h
    · obtain ⟨⟨d2, more⟩, hrest, h⟩ := Option.bind_eq_some_iff.mp h
      cases h
      exact List.forall_mem_append.mpr ⟨processRound_fits hround, ih hrest⟩
    · cases h
      exact processRound_fits hround

/-- The events of `push_byte` give the sizes of their frames. -/
lemma pushByte_fits {byte : UInt8} (h : d.pushByte byte = some (d', calls)) :
    ∀ c ∈ calls, FitsFrame c := by
  rw [FrameStreamDecoder.pushByte] at h
  split at h
  · split at h
    · obtain ⟨d1, -, h⟩ := Option.bind_eq_some_iff.mp h
      cases h
      simp
    · cases h
      exact List.forall_mem_singleton.mpr (fits_emitNoise _)
  split at h
  · split at h
    · obtain ⟨d1, -, h⟩ := Option.bind_eq_some_iff.mp h
      cases h
      simp
    split at h
    · cases h
      exact List.forall_mem_singleton.mpr (fits_emitNoise _)
    · cases h
      exact List.forall_mem_singleton.mpr (fits_emitNoise _)
  · obtain ⟨d1, -, h⟩ := Option.bind_eq_some_iff.mp h
    exact processBuffer_fits h

/-- So do those of `finish`. -/
lemma finish_fits (h : d.finish = some (d', calls)) : ∀ c ∈ calls, FitsFrame c := by
  rw [FrameStreamDecoder.finish] at h
  split at h
  · cases h
    simp
  · obtain ⟨frame, hframe, h⟩ := Option.bind_eq_some_iff.mp h
    cases h
    exact List.forall_mem_singleton.mpr (copyFrame_fits hframe)

end Fits

/-- The sum of a number over some reports. -/
def tally (f : Report → Nat) (reps : List Report) : Nat := (reps.map f).sum

@[simp] lemma tally_nil (f : Report → Nat) : tally f [] = 0 := rfl

@[simp] lemma tally_cons (f : Report → Nat) (rep : Report) (reps : List Report) :
    tally f (rep :: reps) = f rep + tally f reps := rfl

@[simp] lemma tally_append (f : Report → Nat) (reps more : List Report) :
    tally f (reps ++ more) = tally f reps + tally f more := by
  simp [tally]

/-- Of `n` bytes, `m` are left, and what the reports count is not more than the rest. The bytes lost
are at least as many as the candidates rejected, and there are none if there is none. -/
def Balanced (n : Nat) (reps : List Report) (m : Nat) : Prop :=
  ∃ lost, tally Report.decoded reps + tally Report.noise reps + m + lost = n ∧
    tally Report.rejected reps ≤ lost ∧ (tally Report.rejected reps = 0 → lost = 0)

lemma Balanced.refl (n : Nat) : Balanced n [] n := ⟨0, by simp⟩

/-- Bytes that are not there yet do not matter. -/
lemma Balanced.trans {n m k l : Nat} {reps more : List Report} (h : Balanced n reps m)
    (h' : Balanced (m + k) more l) : Balanced (n + k) (reps ++ more) l := by
  obtain ⟨lost, e, hle, hz⟩ := h
  obtain ⟨lost', e', hle', hz'⟩ := h'
  refine ⟨lost + lost', ?_, ?_, ?_⟩
  · simp only [tally_append] at e e' ⊢
    omega
  · simp only [tally_append] at hle hle' ⊢
    omega
  · simp only [tally_append] at hz hz' ⊢
    omega

/-- The noise behind a frame is what `align_to_sync` drops. -/
lemma alignReports_balanced (r : List UInt8) :
    Balanced r.length (alignReports r) (dropToSync r).length := by
  have hle := length_dropToSync r
  rw [alignReports]
  split
  case isTrue h =>
    have e : dropToSync r = r := by
      obtain e | hs := h
      · rw [e]
        rfl
      · exact dropToSync_synced hs
    rw [e]
    exact .refl _
  case isFalse =>
    refine ⟨0, ?_, ?_, fun _ => rfl⟩
    · simp only [tally_cons, tally_nil, Report.decoded, Report.noise]
      omega
    · simp

/-- The loop of `process_buffer`. -/
lemma Drives.balanced {r reps rest} (h : Drives r reps rest) :
    Balanced r.length reps rest.length := by
  induction h with
  | wait _ => exact .refl _
  | @reject r reps rest hs _ _ ih =>
    -- at least the first byte of the candidate is dropped, and no event counts it
    have hle := length_dropToSync r.tail
    have h2 := hs.length
    rw [List.length_tail] at hle
    have hreject : Balanced r.length [.frameRejected r.length (rejectStatus r) r]
        (dropToSync r.tail).length := by
      refine ⟨r.length - (dropToSync r.tail).length, ?_, ?_, ?_⟩
      · simp only [tally_cons, tally_nil, Report.decoded, Report.noise]
        omega
      · simp only [tally_cons, tally_nil, Report.rejected]
        omega
      · simp
    exact hreject.trans (k := 0) ih
  | @deliver r n reps rest hv _ ih =>
    have hn := (frameVerdict_take_inv hv).2.2.2.1
    have hframe : Balanced r.length [.frameDecoded r.length (r.take n)] (r.drop n).length := by
      refine ⟨0, ?_, ?_, fun _ => rfl⟩
      · simp only [tally_cons, tally_nil, Report.decoded, Report.noise, List.length_take,
          List.length_drop]
        omega
      · simp
    exact hframe.trans (k := 0) ((alignReports_balanced _).trans (k := 0) ih)

/-- One byte. -/
lemma Feeds.balanced {r b reps rest} (h : Feeds r b reps rest) :
    Balanced (r.length + 1) reps rest.length := by
  cases h with
  | start => exact .refl _
  | idle _ => exact ⟨0, by simp⟩
  | sync => exact .refl _
  | slide => exact ⟨0, by simp⟩
  | drop _ _ => exact ⟨0, by simp⟩
  | drive _ hd =>
    have h := hd.balanced
    rwa [List.length_append, List.length_singleton] at h

/-- A stream, from a decoder that holds pending bytes. -/
lemma push_balanced {d : FrameStreamDecoder} {r : List UInt8} (h : Ready d r) (bytes : List UInt8) :
    ∃ d' calls r', d.push bytes = some (d', calls) ∧ Ready d' r' ∧ (∀ c ∈ calls, FitsFrame c) ∧
      Balanced (r.length + bytes.length) (calls.map HandlerCall.report) r'.length := by
  induction bytes generalizing d r with
  | nil => exact ⟨d, [], r, rfl, h, by simp, .refl _⟩
  | cons b bytes ih =>
    obtain ⟨d1, calls1, r1, hpush1, hh1, hfeeds⟩ := pushByte_feeds h.toHolds h.waits b
    obtain ⟨ts, hscan, -⟩ := hfeeds.scans h.waits
    obtain ⟨d2, calls2, r2, hpush2, hready2, hfits2, hbal2⟩ := ih ⟨hh1, hscan.rest_wait⟩
    refine ⟨d2, calls1 ++ calls2, r2, run_cons hpush1 hpush2, hready2,
      List.forall_mem_append.mpr ⟨pushByte_fits hpush1, hfits2⟩, ?_⟩
    rw [List.map_append, List.length_cons, Nat.add_comm bytes.length, ← Nat.add_assoc]
    exact hfeeds.balanced.trans hbal2

/-- What a call counts is what its report counts. -/
lemma tally_report {f : Report → Nat} {g : HandlerCall → Nat} {calls : List HandlerCall}
    (h : ∀ c ∈ calls, f c.report = g c) :
    tally f (calls.map HandlerCall.report) = (calls.map g).sum := by
  rw [tally, List.map_map]
  exact congrArg List.sum (List.map_congr_left h)

lemma length_view {c : HandlerCall} (h : FitsFrame c) :
    c.event.frame.view.length = c.event.frame.size := by
  rw [EncodedFrame.view, length_contents]
  exact Nat.min_eq_left h

lemma tally_decoded {calls : List HandlerCall} (h : ∀ c ∈ calls, FitsFrame c) :
    tally Report.decoded (calls.map HandlerCall.report) = frameBytes .frameDecoded calls := by
  refine tally_report fun c hc => ?_
  cases hs : c.event.status <;> simp [HandlerCall.report, hs, length_view (h c hc)]

lemma tally_cut {calls : List HandlerCall} (h : ∀ c ∈ calls, FitsFrame c) :
    tally Report.cut (calls.map HandlerCall.report) = frameBytes .truncated calls := by
  refine tally_report fun c hc => ?_
  cases hs : c.event.status <;> simp [HandlerCall.report, hs, length_view (h c hc)]

lemma tally_noise (calls : List HandlerCall) :
    tally Report.noise (calls.map HandlerCall.report) = discardedBytes calls := by
  refine tally_report fun c _ => ?_
  cases hs : c.event.status <;> simp [HandlerCall.report, hs]

lemma tally_rejected (calls : List HandlerCall) :
    tally Report.rejected (calls.map HandlerCall.report) = rejections calls := by
  refine tally_report fun c _ => ?_
  cases hs : c.event.status <;> simp [HandlerCall.report, hs]

/-- What the events of `calls` count and `kept` bytes are at most the `total`, the difference is at
least the number of rejections, and it is zero exactly if there are none. -/
def Accounted (total : Nat) (calls : List HandlerCall) (kept : Nat) : Prop :=
  frameBytes .frameDecoded calls + discardedBytes calls + kept ≤ total ∧
    rejections calls ≤ total - (frameBytes .frameDecoded calls + discardedBytes calls + kept) ∧
    (total - (frameBytes .frameDecoded calls + discardedBytes calls + kept) = 0 ↔
      rejections calls = 0)

lemma Balanced.accounted {n m : Nat} {calls : List HandlerCall} (hf : ∀ c ∈ calls, FitsFrame c)
    (h : Balanced n (calls.map HandlerCall.report) m) : Accounted n calls m := by
  obtain ⟨lost, e, hle, hz⟩ := h
  rw [tally_decoded hf, tally_noise] at e
  rw [tally_rejected] at hle hz
  refine ⟨by omega, by omega, fun h0 => by omega, fun h0 => ?_⟩
  have := hz h0
  omega

lemma status_of_truncated {c : HandlerCall} {n bytes} (h : c.report = .truncated n bytes) :
    c.event.status = .truncated := by
  cases hs : c.event.status <;> simp [HandlerCall.report, hs] at h ⊢

/-- `finish` reports the pending bytes, if there are any, as one truncated frame. -/
lemma finish_balanced {d : FrameStreamDecoder} {r : List UInt8} (h : Holds d r) :
    ∃ d' last, d.finish = some (d', last) ∧ d'.bufferedSize = 0 ∧ last.length ≤ 1 ∧
      (∀ c ∈ last, FitsFrame c) ∧ (∀ c ∈ last, c.event.status = .truncated) ∧
      frameBytes .truncated last = r.length ∧
      Balanced r.length (last.map HandlerCall.report) r.length := by
  obtain ⟨d', last, hfinish, hh, hreps⟩ := finish_drops h
  have hfits := finish_fits hfinish
  refine ⟨d', last, hfinish, hh.size, ?_⟩
  by_cases hr : r = []
  case pos =>
    rw [if_pos hr, List.map_eq_nil_iff] at hreps
    subst hreps; subst hr
    exact ⟨Nat.zero_le _, hfits, by simp, rfl, .refl _⟩
  rw [if_neg hr] at hreps
  obtain ⟨c, hc, e⟩ := List.map_eq_singleton_iff.mp hreps
  subst hc
  have hcut := tally_cut hfits
  rw [hreps] at hcut ⊢
  exact ⟨Nat.le_refl _, hfits, List.forall_mem_singleton.mpr (status_of_truncated e), hcut.symm,
    0, by simp⟩

/-- Every byte of a stream is accounted for. However it is cut into chunks, the bytes of the delivered
frames, the bytes counted as noise and the bytes in the buffer are at most the bytes pushed; at least
one byte is lost for every rejected candidate, and none if there is none. After `finish` the buffer is
empty, and the same holds with the bytes of its truncated frame in place of those in the buffer. -/
theorem every_byte_accounted (chunks : List (List UInt8)) :
    ∃ d calls, run FrameStreamDecoder.push {} chunks = some (d, calls) ∧
      Accounted chunks.flatten.length calls d.bufferedSize ∧
      ∃ d' last, d.finish = some (d', last) ∧ d'.bufferedSize = 0 ∧
        last.length ≤ 1 ∧ (∀ c ∈ last, c.event.status = .truncated) ∧
        Accounted chunks.flatten.length (calls ++ last) (frameBytes .truncated last) := by
  have hready : Ready ({} : FrameStreamDecoder) [] := .empty rfl
  obtain ⟨d, calls, r, hpush, hr, hfits, hbal⟩ := push_balanced hready chunks.flatten
  obtain ⟨d', last, hfinish, hempty, hone, hfits', hstatus, hcut, hbal'⟩ :=
    finish_balanced hr.toHolds
  rw [List.length_nil, Nat.zero_add] at hbal
  refine ⟨d, calls, run_run.mpr hpush, ?_, d', last, hfinish, hempty, hone, hstatus, ?_⟩
  · rw [FrameStreamDecoder.bufferedSize, hr.size]
    exact hbal.accounted hfits
  · have hall := hbal.trans (k := 0) hbal'
    rw [← List.map_append] at hall
    rw [hcut]
    exact hall.accounted (List.forall_mem_append.mpr ⟨hfits, hfits'⟩)

end ApogeeFC.Stream
