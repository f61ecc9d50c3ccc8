import ApogeeFC.Stream.Accounting
import ApogeeFC.Stream.Resync

/-!
# Clean streams

Intact frames with noise before, between and behind them, where no noise has a sync pair in it. On such
a stream the decoder is never misled, whatever the frames contain and wherever frames and noise meet:
it delivers every frame with its last byte, rejects nothing and counts every byte of noise
(`clean_streams_decode`).

Between two frames the decoder holds nothing or a lone `A5`, which may be the last of the noise or the
first of a frame (`push_noise`). In a frame it waits until the frame is complete (`push_frame`).
-/

namespace ApogeeFC.Stream
open Codec Mealy Scan

/-- Bytes in which `A5` is never followed by `5A`. -/
def NoSync (noise : List UInt8) : Prop := ¬ [syncFirst, syncSecond] <:+: noise

instance (noise : List UInt8) : Decidable (NoSync noise) := inferInstanceAs (Decidable (¬ _))

/-- What of some noise may be the start of a frame. -/
def trail (noise : List UInt8) : List UInt8 :=
  if noise.getLast? = some syncFirst then [syncFirst] else []

/-- The frames of the `FrameDecoded` events, each with the number of bytes pushed. -/
def deliveries (calls : List StampedCall) : List (Nat × List UInt8) :=
  calls.filterMap fun c =>
    if c.call.event.status = .frameDecoded then some (c.pushed, c.call.event.frame.view) else none

/-- The calls deliver `frames`, count `noise` bytes as noise and reject nothing. -/
structure Yields (calls : List StampedCall) (frames : List (Nat × List UInt8)) (noise : Nat) :
    Prop where
  frames : deliveries calls = frames
  noise : discardedBytes (calls.map StampedCall.call) = noise
  accepted : ∀ c ∈ calls, c.call.event.status ≠ .frameRejected

lemma Yields.nil : Yields [] [] 0 := ⟨rfl, rfl, by simp⟩

lemma Yields.append {calls more : List StampedCall} {frames frames' noise noise'}
    (h : Yields calls frames noise) (h' : Yields more frames' noise') :
    Yields (calls ++ more) (frames ++ frames') (noise + noise') where
  frames := by
    rw [← h.frames, ← h'.frames, deliveries, List.filterMap_append]
    rfl
  noise := by
    rw [← h.noise, ← h'.noise]
    simp [discardedBytes]
  accepted := List.forall_mem_append.mpr ⟨h.accepted, h'.accepted⟩

/-- The calls of a byte that is noise. -/
lemma yields_noise {calls : List HandlerCall} {n m : Nat} (k : Nat)
    (h : calls.map HandlerCall.report = [.noiseDiscarded n m]) :
    Yields (calls.map (StampedCall.mk k)) [] m := by
  obtain ⟨c, e, hc⟩ := List.map_eq_singleton_iff.mp h
  subst e
  cases hs : c.event.status <;> simp [HandlerCall.report, hs] at hc
  exact ⟨by simp [deliveries, hs], by simp [discardedBytes, hs, hc.2], by simp [hs]⟩

/-- The calls of a byte that completes a frame. -/
lemma yields_frame {calls : List HandlerCall} {n f} (k : Nat)
    (h : calls.map HandlerCall.report = [.frameDecoded n f]) :
    Yields (calls.map (StampedCall.mk k)) [(k, f)] 0 := by
  obtain ⟨c, e, hc⟩ := List.map_eq_singleton_iff.mp h
  subst e
  cases hs : c.event.status <;> simp [HandlerCall.report, hs] at hc
  exact ⟨by simp [deliveries, hs, hc.2], by simp [discardedBytes, hs], by simp [hs]⟩

/-- The calls of a byte that nothing comes of yet. -/
lemma yields_nil {calls : List HandlerCall} (k : Nat) (h : calls.map HandlerCall.report = []) :
    Yields (calls.map (StampedCall.mk k)) [] 0 := by
  rw [List.map_eq_nil_iff] at h
  subst h
  exact .nil

/-- An empty decoder keeps an `A5`. -/
lemma Feeds.nil_inv {b reps rest} (h : Feeds [] b reps rest) :
    b = syncFirst ∧ reps = [] ∧ rest = [syncFirst] ∨
      b ≠ syncFirst ∧ reps = [.noiseDiscarded 0 1] ∧ rest = [] := by
  cases h with
  | start => exact .inl ⟨rfl, rfl, rfl⟩
  | idle hb => exact .inr ⟨hb, rfl, rfl⟩
  | drive hs _ => exact absurd hs not_synced_nil

/-- After an `A5`, the next byte decides. -/
lemma Feeds.half_inv {b reps rest} (h : Feeds [syncFirst] b reps rest) :
    b = syncSecond ∧ reps = [] ∧ rest = [syncFirst, syncSecond] ∨
      b = syncFirst ∧ reps = [.noiseDiscarded 1 1] ∧ rest = [syncFirst] ∨
      (b ≠ syncFirst ∧ b ≠ syncSecond) ∧ reps = [.noiseDiscarded 0 2] ∧ rest = [] := by
  cases h with
  | sync => exact .inl ⟨rfl, rfl, rfl⟩
  | slide => exact .inr (.inl ⟨rfl, rfl, rfl⟩)
  | drop h1 h2 => exact .inr (.inr ⟨⟨h1, h2⟩, rfl, rfl⟩)
  | drive hs _ => exact absurd hs (not_synced_singleton _)

/-- After a sync pair, the loop runs. -/
lemma Feeds.synced_inv {r b reps rest} (hs : Synced r) (h : Feeds r b reps rest) :
    Drives (r ++ [b]) reps rest := by
  cases h with
  | start => exact absurd hs not_synced_nil
  | idle _ => exact absurd hs not_synced_nil
  | sync => exact absurd hs (not_synced_singleton _)
  | slide => exact absurd hs (not_synced_singleton _)
  | drop _ _ => exact absurd hs (not_synced_singleton _)
  | drive _ hd => exact hd

/-- One byte, with the calls stamped. -/
lemma pushByte_stamped {c : CountedDecoder} {r : List UInt8} (h : Ready c.decoder r) (b : UInt8) :
    ∃ c' r', ∃ calls : List HandlerCall, c.pushByte b = some (c', calls.map (StampedCall.mk (c.pushed + 1))) ∧
      Ready c'.decoder r' ∧ c'.pushed = c.pushed + 1 ∧
      Feeds r b (calls.map HandlerCall.report) r' := by
  obtain ⟨d', calls, r', hpush, hh, hfeeds⟩ := pushByte_feeds h.toHolds h.waits b
  obtain ⟨ts, hscan, -⟩ := hfeeds.scans h.waits
  exact ⟨⟨c.pushed + 1, d'⟩, r', calls, by simp [CountedDecoder.pushByte, hpush],
    ⟨hh, hscan.rest_wait⟩, rfl, hfeeds⟩

/-- Only the last byte can trail. -/
lemma trail_cons {b : UInt8} {noise : List UInt8} (h : b ≠ syncFirst ∨ noise ≠ []) :
    trail (b :: noise) = trail noise := by
  rw [trail, trail, List.getLast?_cons]
  cases hl : noise.getLast? with
  | some last => rfl
  | none =>
    rw [List.getLast?_eq_none_iff] at hl
    simp [h.resolve_right (not_not.mpr hl)]

lemma NoSync.tail {b : UInt8} {noise : List UInt8} (h : NoSync (b :: noise)) : NoSync noise :=
  fun hi => h (List.infix_cons hi)

/-- One byte of noise between frames, and what may still come of the noise after it. -/
lemma Feeds.noise {r noise r1 : List UInt8} {b : UInt8} {calls : List HandlerCall}
    (h : Feeds r b (calls.map HandlerCall.report) r1) (hr : r = [] ∨ r = [syncFirst])
    (hn : NoSync (r ++ b :: noise)) (stamp : Nat) :
    ∃ k, Yields (calls.map (StampedCall.mk stamp)) [] k ∧ (r1 = [] ∨ r1 = [syncFirst]) ∧
      NoSync (r1 ++ noise) ∧ trail (r ++ b :: noise) = trail (r1 ++ noise) ∧
      k + r1.length = r.length + 1 := by
  obtain e | e := hr
  · subst e
    obtain ⟨hb, hreps, e1⟩ | ⟨hb, hreps, e1⟩ := h.nil_inv
    · subst hb; subst e1
      exact ⟨0, yields_nil _ hreps, .inr rfl, hn, rfl, rfl⟩
    · subst e1
      exact ⟨1, yields_noise _ hreps, .inl rfl, hn.tail, trail_cons (.inl hb), rfl⟩
  · subst e
    obtain ⟨hb, -, -⟩ | ⟨hb, hreps, e1⟩ | ⟨⟨hb, -⟩, hreps, e1⟩ := h.half_inv
    -- `A5 5A` would be a sync pair in the noise
    · subst hb
      exact absurd ⟨[], noise, rfl⟩ hn
    · subst hb; subst e1
      exact ⟨1, yields_noise _ hreps, .inr rfl, hn.tail, trail_cons (.inr (by simp)), rfl⟩
    · subst e1
      refine ⟨2, yields_noise _ hreps, .inl rfl, hn.tail.tail, ?_, rfl⟩
      exact (trail_cons (.inr (by simp))).trans (trail_cons (.inl hb))

/-- Between frames, noise is counted but for a trailing `A5`. -/
lemma push_noise {c : CountedDecoder} {r noise : List UInt8} (h : Ready c.decoder r)
    (hr : r = [] ∨ r = [syncFirst]) (hn : NoSync (r ++ noise)) :
    ∃ c' calls k, c.push noise = some (c', calls) ∧ Ready c'.decoder (trail (r ++ noise)) ∧
      c'.pushed = c.pushed + noise.length ∧ Yields calls [] k ∧
      k + (trail (r ++ noise)).length = r.length + noise.length := by
  induction noise generalizing c r with
  | nil =>
    have e : trail r = r := by
      obtain e | e := hr
      · subst e
        rfl
      · subst e
        rfl
    rw [List.append_nil, e]
    exact ⟨c, [], 0, rfl, h, rfl, .nil, Nat.zero_add _⟩
  | cons b noise ih =>
    obtain ⟨c1, r1, calls, hpush, hready, hpushed, hfeeds⟩ := pushByte_stamped h b
    obtain ⟨k, hy, hr1, hn1, htrail, hk⟩ := hfeeds.noise hr hn (c.pushed + 1)
    obtain ⟨c2, more, k2, hpush2, hready2, hpushed2, hy2, hk2⟩ := ih hready hr1 hn1
    rw [htrail]
    refine ⟨c2, _, k + k2, run_cons hpush hpush2, hready2, ?_, hy.append hy2, ?_⟩
    · rw [hpushed2, hpushed, List.length_cons]
      omega
    · rw [List.length_cons]
      omega

/-- The loop waits as long as the frame is not complete. -/
lemma Drives.waits {r reps rest} (hv : frameVerdict r = .wait) (h : Drives r reps rest) :
    reps = [] ∧ rest = r := by
  cases h with
  | wait _ => exact ⟨rfl, rfl⟩
  | reject _ hv' _ => exact absurd (hv.symm.trans hv') (by simp)
  | deliver hv' _ => exact absurd (hv.symm.trans hv') (by simp)

/-- The loop delivers a frame that is all there is. -/
lemma Drives.accepts {f reps rest} (hf : frameScanner.Accepts f) (h : Drives f reps rest) :
    reps = [.frameDecoded f.length f] ∧ rest = [] := by
  have hv : frameVerdict f = .take f.length := hf
  cases h with
  | wait hv' => exact absurd (hv.symm.trans hv') (by simp)
  | reject _ hv' _ => exact absurd (hv.symm.trans hv') (by simp)
  | @deliver _ n reps rest hv' hd =>
    have en : n = f.length := Verdict.take.inj (hv'.symm.trans hv)
    subst en
    rw [List.drop_length] at hd ⊢
    obtain ⟨e1, e2⟩ := hd.nil_inv
    subst e1; subst e2
    exact ⟨by rw [List.take_length]; rfl, rfl⟩

/-- The rest of a frame that has begun. -/
lemma push_frame_rest {c : CountedDecoder} {p q : List UInt8} (h : Ready c.decoder p) (hp : Synced p)
    (hf : frameScanner.Accepts (p ++ q)) (hq : q ≠ []) :
    ∃ c' calls, c.push q = some (c', calls) ∧ Ready c'.decoder [] ∧
      c'.pushed = c.pushed + q.length ∧ Yields calls [(c.pushed + q.length, p ++ q)] 0 := by
  induction q generalizing c p with
  | nil => exact absurd rfl hq
  | cons b q ih =>
    obtain ⟨c1, r1, calls, hpush, hready, hpushed, hfeeds⟩ := pushByte_stamped h b
    have hd := hfeeds.synced_inv hp
    by_cases hq' : q = []
    case pos =>
      subst hq'
      obtain ⟨hreps, e1⟩ := hd.accepts hf
      subst e1
      exact ⟨c1, _, by rw [CountedDecoder.push, run_singleton]; exact hpush, hready, hpushed,
        yields_frame _ hreps⟩
    have e : p ++ b :: q = (p ++ [b]) ++ q := by rw [List.append_assoc]; rfl
    rw [e] at hf ⊢
    -- no proper prefix of a frame is a frame
    obtain ⟨hreps, e1⟩ := hd.waits (hf.prefix_waits hq')
    subst e1
    obtain ⟨c2, more, hpush2, hready2, hpushed2, hy2⟩ := ih hready (hp.append [b]) hf hq'
    have el : c1.pushed + q.length = c.pushed + (b :: q).length := by
      rw [hpushed, List.length_cons]
      omega
    rw [el] at hpushed2 hy2
    exact ⟨c2, _, run_cons hpush hpush2, hready2, hpushed2, (yields_nil _ hreps).append hy2⟩

/-- The first byte of a frame. An `A5` left from the noise before it is counted as noise. -/
lemma Feeds.frame_begins {r r1 : List UInt8} {calls : List HandlerCall}
    (h : Feeds r syncFirst (calls.map HandlerCall.report) r1) (hr : r = [] ∨ r = [syncFirst])
    (stamp : Nat) : r1 = [syncFirst] ∧ Yields (calls.map (StampedCall.mk stamp)) [] r.length := by
  obtain e | e := hr
  · subst e
    obtain ⟨-, hreps, e1⟩ | ⟨hb, -⟩ := h.nil_inv
    · exact ⟨e1, yields_nil _ hreps⟩
    · exact absurd rfl hb
  · subst e
    obtain ⟨hb, -⟩ | ⟨-, hreps, e1⟩ | ⟨⟨hb, -⟩, -⟩ := h.half_inv
    · exact absurd hb (by decide)
    · exact ⟨e1, yields_noise _ hreps⟩
    · exact absurd rfl hb

/-- A frame is delivered with its last byte, and an `A5` left from the noise before it is counted. -/
lemma push_frame {c : CountedDecoder} {r f : List UInt8} (h : Ready c.decoder r)
    (hr : r = [] ∨ r = [syncFirst]) (hf : frameScanner.Accepts f) :
    ∃ c' calls, c.push f = some (c', calls) ∧ Ready c'.decoder [] ∧
      c'.pushed = c.pushed + f.length ∧ Yields calls [(c.pushed + f.length, f)] r.length := by
  have h12 := length_of_accepts hf
  obtain ⟨s, e⟩ := (frameVerdict_take_inv hf).1.eq
  subst e
  change 12 ≤ s.length + 2 at h12
  have hs : s ≠ [] := by
    intro e
    subst e
    simp at h12
  obtain ⟨c1, r1, calls1, hpush1, hready1, hpushed1, hfeeds1⟩ := pushByte_stamped h syncFirst
  obtain ⟨e1, hy1⟩ := hfeeds1.frame_begins hr (c.pushed + 1)
  subst e1
  obtain ⟨c2, r2, calls2, hpush2, hready2, hpushed2, hfeeds2⟩ := pushByte_stamped hready1 syncSecond
  obtain ⟨-, hreps2, e2⟩ | ⟨hb, -⟩ | ⟨⟨-, hb⟩, -⟩ := hfeeds2.half_inv
  · subst e2
    obtain ⟨c3, calls3, hpush3, hready3, hpushed3, hy3⟩ := push_frame_rest hready2 rfl hf hs
    have el : c2.pushed + s.length = c.pushed + (syncFirst :: syncSecond :: s).length := by
      rw [hpushed2, hpushed1, List.length_cons, List.length_cons]
      omega
    rw [el] at hpushed3 hy3
    exact ⟨c3, _, run_cons hpush1 (run_cons hpush2 hpush3), hready3, hpushed3,
      hy1.append ((yields_nil _ hreps2).append hy3)⟩
  · exact absurd hb (by decide)
  · exact absurd rfl hb

/-- Some noise, and then frames each with some noise behind it. -/
def cleanStream : List UInt8 → List (List UInt8 × List UInt8) → List UInt8
  | noise, [] => noise
  | noise, (f, noise') :: segments => noise ++ (f ++ cleanStream noise' segments)

/-- The noise the stream ends with. -/
def lastNoise : List UInt8 → List (List UInt8 × List UInt8) → List UInt8
  | noise, [] => noise
  | _, (_, noise') :: segments => lastNoise noise' segments

/-- The number of bytes of noise. -/
def noiseLength : List UInt8 → List (List UInt8 × List UInt8) → Nat
  | noise, [] => noise.length
  | noise, (_, noise') :: segments => noise.length + noiseLength noise' segments

/-- The frames, each with where it ends, of a stream that starts at `k`. -/
def frameEnds : Nat → List UInt8 → List (List UInt8 × List UInt8) → List (Nat × List UInt8)
  | _, _, [] => []
  | k, noise, (f, noise') :: segments =>
    (k + noise.length + f.length, f) :: frameEnds (k + noise.length + f.length) noise' segments

/-- A clean stream. -/
lemma push_clean {c : CountedDecoder} (h : Ready c.decoder []) {noise : List UInt8}
    {segments : List (List UInt8 × List UInt8)} (hn : NoSync noise)
    (hs : ∀ s ∈ segments, frameScanner.Accepts s.1 ∧ NoSync s.2) :
    ∃ c' calls k, c.push (cleanStream noise segments) = some (c', calls) ∧
      Ready c'.decoder (trail (lastNoise noise segments)) ∧
      Yields calls (frameEnds c.pushed noise segments) k ∧
      k + (trail (lastNoise noise segments)).length = noiseLength noise segments := by
  induction segments generalizing c noise with
  | nil =>
    obtain ⟨c1, calls, k, hpush, hready, -, hy, hk⟩ := push_noise h (.inl rfl) hn
    exact ⟨c1, calls, k, hpush, hready, hy, by simpa [lastNoise, noiseLength] using hk⟩
  | cons segment segments ih =>
    obtain ⟨f, noise'⟩ := segment
    rw [List.forall_mem_cons] at hs
    obtain ⟨⟨hf, hn'⟩, hs⟩ := hs
    obtain ⟨c1, calls1, k1, hpush1, hready1, hpushed1, hy1, hk1⟩ := push_noise h (.inl rfl) hn
    rw [List.nil_append] at hready1 hk1
    have htrail : trail noise = [] ∨ trail noise = [syncFirst] := by
      rw [trail]
      split
      · exact .inr rfl
      · exact .inl rfl
    obtain ⟨c2, calls2, hpush2, hready2, hpushed2, hy2⟩ := push_frame hready1 htrail hf
    obtain ⟨c3, calls3, k3, hpush3, hready3, hy3, hk3⟩ := ih hready2 hn' hs
    rw [hpushed2, hpushed1] at hy3
    rw [hpushed1] at hy2
    refine ⟨c3, _, _, run_append hpush1 (run_append hpush2 hpush3), hready3,
      hy1.append (hy2.append hy3), ?_⟩
    rw [List.length_nil, Nat.zero_add] at hk1
    rw [noiseLength, lastNoise]
    dsimp only at hk3
    omega

/-- Clean streams decode promptly and exactly. Pushed in any chunks on a fresh decoder, every frame is
delivered when its last byte is pushed, in order; nothing is rejected; and the bytes counted as noise
are all the noise, but for the one `A5` in the buffer if the stream ends with that in its noise. -/
theorem clean_streams_decode {noise : List UInt8} {segments : List (Frame × List UInt8)}
    (hn : NoSync noise) (hs : ∀ s ∈ segments, (encode s.1).ok ∧ NoSync s.2)
    {wires : List (List UInt8 × List UInt8)}
    (hw : wires = segments.map fun s => ((encode s.1).frame.view, s.2)) {chunks : List (List UInt8)}
    (hc : chunks.flatten = cleanStream noise wires) :
    ∃ c calls, run CountedDecoder.push {} chunks = some (c, calls) ∧
      run FrameStreamDecoder.push {} chunks = some (c.decoder, calls.map StampedCall.call) ∧
      deliveries calls = frameEnds 0 noise wires ∧
      (∀ c ∈ calls, c.call.event.status ≠ .frameRejected) ∧
      discardedBytes (calls.map StampedCall.call) + c.decoder.bufferedSize =
        noiseLength noise wires ∧
      c.decoder.bufferedSize =
        if (lastNoise noise wires).getLast? = some syncFirst then 1 else 0 := by
  have haccepts : ∀ s ∈ wires, frameScanner.Accepts s.1 ∧ NoSync s.2 := by
    subst hw
    rw [List.forall_mem_map]
    exact fun s hmem => ⟨accepts_encode (hs s hmem).1, (hs s hmem).2⟩
  have hready : Ready ({} : CountedDecoder).decoder [] := .empty rfl
  obtain ⟨c, calls, k, hpush, hready, hy, hk⟩ := push_clean hready hn haccepts
  have hsize : c.decoder.bufferedSize = (trail (lastNoise noise wires)).length := hready.size
  rw [← hc] at hpush
  refine ⟨c, calls, run_run.mpr hpush, run_run.mpr (push_of_counted hpush), hy.frames, hy.accepted,
    ?_, ?_⟩
  · rw [hy.noise, hsize]
    exact hk
  · rw [hsize, trail]
    split <;> rfl

/-- A ping between noise that ends with `A5` and noise that starts with `5A`, in two chunks. -/
theorem clean_streams_decode_ping :
    ∃ c calls, run CountedDecoder.push {}
        [[0x00, syncFirst], (encode pingFrame).frame.view ++ [syncSecond, syncFirst]] =
        some (c, calls) ∧
      deliveries calls = [(15, (encode pingFrame).frame.view)] ∧
      (∀ c ∈ calls, c.call.event.status ≠ .frameRejected) ∧
      discardedBytes (calls.map StampedCall.call) + c.decoder.bufferedSize = 4 ∧
      c.decoder.bufferedSize = 1 := by
  obtain ⟨c, calls, hrun, -, hdel, hrej, hnoise, hsize⟩ :=
    @clean_streams_decode [0x00, syncFirst] [(pingFrame, [syncSecond, syncFirst])] (by decide)
      (by decide +kernel) _ rfl
      [[0x00, syncFirst], (encode pingFrame).frame.view ++ [syncSecond, syncFirst]] (by simp [cleanStream])
  have hlen : (encode pingFrame).frame.view.length = 13 := by decide +kernel
  refine ⟨c, calls, hrun, hdel.trans ?_, hrej, hnoise, hsize⟩
  simp [frameEnds, hlen]

end ApogeeFC.Stream
