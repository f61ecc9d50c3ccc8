import ApogeeFC.Stream.Push

/-!
# Resynchronisation

What becomes of an intact frame `f` in a stream `p ++ f ++ t` with anything before it, unless a frame
that `decode` accepts starts in `p` and runs into it (`Overlapped`).

If 64 or more bytes follow, the frame is always delivered (`resynchronises`): a header in `p` that
claims `f` as its payload is complete by then, and gets rejected or skipped.

If the stream ends earlier, `finish` reports whatever is pending as truncated and drops it, without
looking for frames in it. So the frame is lost exactly if the scan meets a header in `p` that is cut
off by the end of the stream (`finish_delivers_iff`).
-/

namespace ApogeeFC.Stream
open Codec Scan

/-- A complete frame that `decode` accepts starts in `p` and extends past it into `t`. -/
def Overlapped (p t : List UInt8) : Prop :=
  ∃ q < p.length, ∃ n < (p ++ t).length + 1, p.length < q + n ∧ q + n ≤ (p ++ t).length ∧
    (decode (((p ++ t).drop q).take n)).ok

instance (p t : List UInt8) : Decidable (Overlapped p t) :=
  inferInstanceAs (Decidable (∃ q < p.length, ∃ n < (p ++ t).length + 1,
    p.length < q + n ∧ q + n ≤ (p ++ t).length ∧ (decode (((p ++ t).drop q).take n)).ok))

/-- A header starts at `q` whose frame, as long as it claims to be, is cut off by the end of `s`. -/
def CutOff (s : List UInt8) (q : Nat) : Prop :=
  Synced (s.drop q) ∧ claimedLength (s.drop q) ≤ maximumPayloadSize ∧
    s.length < q + minimumFrameSize + claimedLength (s.drop q)

instance (s : List UInt8) (q : Nat) : Decidable (CutOff s q) :=
  inferInstanceAs (Decidable (_ ∧ _ ∧ _))

/-- An output of `encode` is accepted. -/
lemma accepts_encode {frame : Frame} (h : (encode frame).ok) :
    frameScanner.Accepts (encode frame).frame.view :=
  accepts_iff.mpr (decode_ok_iff.mpr ⟨frame, h, rfl⟩)

/-- An accepted frame has at least a header and a CRC. -/
lemma length_of_accepts {f : List UInt8} (h : frameScanner.Accepts f) :
    minimumFrameSize ≤ f.length := by
  obtain ⟨-, -, e, -, -⟩ := frameVerdict_take_inv h
  rw [e]
  exact Nat.le_add_right _ _

/-- Without overlap the verdicts take no frame across the border, and conversely. -/
lemma not_overlapped_iff {p t : List UInt8} :
    ¬ Overlapped p t ↔
      ∀ q < p.length, ∀ n, frameVerdict ((p ++ t).drop q) = .take n → q + n ≤ p.length := by
  have hp : p.length ≤ (p ++ t).length := by
    rw [List.length_append]
    exact Nat.le_add_right _ _
  constructor
  · intro h q hq n hv
    obtain ⟨-, -, -, hn, hd⟩ := frameVerdict_take_inv hv
    rw [List.length_drop] at hn
    apply Nat.le_of_not_lt
    intro hlt
    exact h ⟨q, hq, n, by omega, hlt, by omega, hd⟩
  · rintro h ⟨q, hq, n, -, hlt, hn, hd⟩
    have hv := (accepts_iff.mpr hd).verdict_append (((p ++ t).drop q).drop n)
    rw [List.take_append_drop, List.length_take, List.length_drop, Nat.min_eq_left (by omega)] at hv
    exact Nat.not_le_of_lt hlt (h q hq n hv)

/-- Where at least a minimal frame is left, the scan waits exactly at a header that is cut off. -/
lemma wait_iff_cutOff {s : List UInt8} {q} (hq : q + minimumFrameSize ≤ s.length) :
    frameVerdict (s.drop q) = .wait ↔ CutOff s q := by
  change q + 12 ≤ _ at hq
  constructor
  · intro h
    have hl : (s.drop q).length = s.length - q := List.length_drop
    have hh : headerSize ≤ (s.drop q).length := by
      change 6 ≤ _
      omega
    obtain ⟨hs, hm, hc⟩ := frameVerdict_wait_header h hh
    rw [hl] at hc
    change _ < 12 + _ at hc
    refine ⟨hs, hm, ?_⟩
    change _ < q + 12 + _
    omega
  · rintro ⟨hs, hm, hc⟩
    change _ < q + 12 + _ at hc
    apply frameVerdict_pending hs hm
    change _ < 12 + _
    rw [List.length_drop]
    omega

/-- A scan that gets through `p` takes the frame after it. -/
lemma scan_through {p f t : List UInt8} (hf : frameScanner.Accepts f) (hp : ¬ Overlapped p (f ++ t))
    (hw : ∀ q < p.length, Visits frameScanner (p ++ (f ++ t)) q →
      frameVerdict ((p ++ (f ++ t)).drop q) ≠ .wait)
    {ts rest} (h : Scans frameScanner (p ++ (f ++ t)) ts rest) :
    ∃ us vs, ts = us ++ .frame f :: vs ∧ spell us = p ∧ Scans frameScanner t vs rest := by
  obtain ⟨us, vs, e, hsp, hs⟩ := h.split hw (not_overlapped_iff.mp hp)
  obtain ⟨e', er⟩ := hs.det (.frame hf (scan_scans frameScanner t))
  rw [e'] at e
  rw [er]
  exact ⟨us, _, e, hsp, scan_scans frameScanner t⟩

/-- A ping command with sequence number 7. -/
def pingFrame : Frame := { messageType := .command, payloadLength := 1, sequence := 7 }

/-- Six bytes of noise that read as the header of telemetry with 8 bytes of payload. -/
def falseHeader : List UInt8 := [0xA5, 0x5A, 0x01, 0x01, 0x08, 0x00]

/-- Bounded resynchronisation: whatever precedes an intact frame, if no accepted frame runs into it and
at least 64 bytes follow, it is delivered exactly once, and every other delivered frame lies wholly
before or wholly after it. -/
theorem resynchronises {frame : Frame} (hf : (encode frame).ok) {p t : List UInt8}
    (ht : maximumPayloadSize ≤ t.length) (hp : ¬ Overlapped p ((encode frame).frame.view ++ t))
    {chunks : List (List UInt8)} (hc : chunks.flatten = p ++ ((encode frame).frame.view ++ t)) :
    ∃ c calls before after, Mealy.run CountedDecoder.push {} chunks = some (c, calls) ∧
      Mealy.run FrameStreamDecoder.push {} chunks =
        some (c.decoder, calls.map StampedCall.call) ∧
      decodedFrames (calls.map StampedCall.call) =
        before.map Prod.snd ++ [(encode frame).frame.view] ++ after.map Prod.snd ∧
      locatedFrames calls = before ++ [(p.length, (encode frame).frame.view)] ++ after ∧
      (∀ x ∈ before, x.1 + x.2.length ≤ p.length) ∧
      (∀ x ∈ after, p.length + (encode frame).frame.view.length ≤ x.1) ∧
      Embedded frameScanner (before.map Prod.snd) p ∧
      Embedded frameScanner (after.map Prod.snd) t := by
  have hacc := accepts_encode hf
  have h12 := length_of_accepts hacc
  generalize (encode frame).frame.view = f at hacc h12 hp hc ⊢
  obtain ⟨c, calls, ts, rest, hrun, -, -, hscan, hloc⟩ := session_scans chunks
  rw [hc] at hscan
  -- a candidate has at most 76 bytes, so none that starts in `p` can be waiting at the end
  have hw : ∀ q < p.length, Visits frameScanner (p ++ (f ++ t)) q →
      frameVerdict ((p ++ (f ++ t)).drop q) ≠ .wait := by
    intro q hq _ hwait
    have hlt := length_of_wait hwait
    change 64 ≤ _ at ht
    change 12 ≤ _ at h12
    change _ < 76 at hlt
    rw [List.length_drop, List.length_append, List.length_append] at hlt
    omega
  obtain ⟨us, vs, e, hsp, hs⟩ := scan_through hacc hp hw hscan
  have hus : ∀ g ∈ frames us, frameScanner.Accepts g := fun g hg =>
    hscan.accepts g (by rw [e, frames_append]; exact List.mem_append_left _ hg)
  have hbefore := Embedded.of_tokens hus []
  have hafter := Embedded.of_tokens hs.accepts rest
  rw [hsp, List.append_nil] at hbefore
  rw [hs.spell] at hafter
  have hall : locatedFrames calls =
      locate 0 us ++ [(p.length, f)] ++ locate (p.length + f.length) vs := by
    rw [hloc, e, locate_append, hsp, Nat.zero_add, locate, List.append_assoc, List.singleton_append]
  refine ⟨c, calls, locate 0 us, locate (p.length + f.length) vs, hrun, ?_, ?_, hall, ?_, ?_, ?_, ?_⟩
  · exact Mealy.run_run.mpr (push_of_counted (Mealy.run_run.mp hrun))
  · rw [← map_snd_locatedFrames, hall, List.map_append, List.map_append, List.map_singleton]
  · intro x hx
    have hb := (locate_bounds hx).2
    rwa [hsp, Nat.zero_add] at hb
  · exact fun x hx => (locate_bounds hx).1
  · rwa [map_snd_locate]
  · rwa [map_snd_locate]

theorem resynchronises_falseHeader :
    ∃ c calls before after,
      Mealy.run CountedDecoder.push {}
          [falseHeader, (encode pingFrame).frame.view ++ List.replicate 64 0] = some (c, calls) ∧
        locatedFrames calls = before ++ [(6, (encode pingFrame).frame.view)] ++ after :=
  have hskip : ∀ q < falseHeader.length, frameVerdict ((falseHeader ++
      ((encode pingFrame).frame.view ++ List.replicate 64 0)).drop q) = .skip := by decide +kernel
  have ⟨c, calls, before, after, h, _, _, hloc, _⟩ := resynchronises (by decide +kernel)
    (p := falseHeader) (t := List.replicate 64 0) (by simp)
    (not_overlapped_iff.mpr fun q hq n hn => absurd ((hskip q hq).symm.trans hn) (by simp)) (by simp)
  ⟨c, calls, before, after, h, hloc⟩

/-- `finish` delivers no frame. -/
lemma finish_located {c : CountedDecoder} {r : List UInt8} (h : Holds c.decoder r) :
    ∃ c' calls, c.finish = some (c', calls) ∧ locatedFrames calls = [] := by
  obtain ⟨d', calls, hfin, -, hcalls⟩ := finish_drops h
  refine ⟨⟨c.pushed, d'⟩, calls.map (StampedCall.mk c.pushed), ?_, ?_⟩
  · simp [CountedDecoder.finish, hfin]
  · rw [locatedFrames_stamp, hcalls]
    split <;> rfl

/-- What happens at the end of a stream to an intact frame into which no accepted frame runs: it has
been delivered exactly if the scan meets no header before it that the end of the stream cuts off. -/
theorem finish_delivers_iff {frame : Frame} (hf : (encode frame).ok) {p t : List UInt8}
    (hp : ¬ Overlapped p ((encode frame).frame.view ++ t))
    {chunks : List (List UInt8)} (hc : chunks.flatten = p ++ ((encode frame).frame.view ++ t)) :
    ∃ c calls c' calls', Mealy.run CountedDecoder.push {} chunks = some (c, calls) ∧
      c.finish = some (c', calls') ∧
      ((p.length, (encode frame).frame.view) ∈ locatedFrames (calls ++ calls') ↔
        ∀ q < p.length, Visits frameScanner chunks.flatten q → ¬ CutOff chunks.flatten q) := by
  have hacc := accepts_encode hf
  have h12 := length_of_accepts hacc
  generalize (encode frame).frame.view = f at hacc h12 hp hc ⊢
  obtain ⟨c, calls, ts, rest, hrun, hready, -, hscan, hloc⟩ := session_scans chunks
  obtain ⟨c', calls', hfin, hnone⟩ := finish_located hready.toHolds
  refine ⟨c, calls, c', calls', hrun, hfin, ?_⟩
  rw [locatedFrames_append, hnone, List.append_nil, hloc]
  rw [hc] at hscan ⊢
  have hcut : ∀ q < p.length,
      (frameVerdict ((p ++ (f ++ t)).drop q) = .wait ↔ CutOff (p ++ (f ++ t)) q) := by
    intro q hq
    apply wait_iff_cutOff
    rw [List.length_append, List.length_append]
    omega
  constructor
  · intro hmem q hq hvis hcutoff
    -- the scan ends at `q`, so it cannot have read the frame
    have hend := hvis.ends ((hcut q hq).mpr hcutoff) hscan
    have hb := (locate_bounds hmem).2
    omega
  · intro h
    obtain ⟨us, vs, e, hsp, -⟩ := scan_through hacc hp
      (fun q hq hvis hw => h q hq hvis ((hcut q hq).mp hw)) hscan
    rw [e, locate_append, hsp, Nat.zero_add]
    exact List.mem_append_right _ (List.mem_cons_self ..)

/-- Nothing but a zero byte before the frame, so nothing is cut off. -/
theorem finish_delivers_iff_noise :
    ∃ c calls c' calls',
      Mealy.run CountedDecoder.push {} [[0x00], (encode pingFrame).frame.view] = some (c, calls) ∧
        c.finish = some (c', calls') ∧
        ((1, (encode pingFrame).frame.view) ∈ locatedFrames (calls ++ calls') ↔
          ∀ q < 1, Visits frameScanner ([0x00] ++ (encode pingFrame).frame.view) q →
            ¬ CutOff ([0x00] ++ (encode pingFrame).frame.view) q) :=
  finish_delivers_iff (by decide +kernel) (p := [0x00]) (t := []) (by decide +kernel) (by simp)

/-- A false header in front of a complete frame at the end of the stream: both are dropped. -/
theorem finish_loses_frame :
    (encode pingFrame).ok ∧ ¬ Overlapped falseHeader ((encode pingFrame).frame.view ++ []) ∧
      ∃ c calls c' calls',
        Mealy.run CountedDecoder.push {} [falseHeader ++ ((encode pingFrame).frame.view ++ [])] =
            some (c, calls) ∧
          c.finish = some (c', calls') ∧
          (falseHeader.length, (encode pingFrame).frame.view) ∉ locatedFrames (calls ++ calls') := by
  refine ⟨by decide +kernel, by decide +kernel, ?_⟩
  generalize hs : falseHeader ++ ((encode pingFrame).frame.view ++ []) = s
  have hwait : frameScanner.verdict s = .wait := by
    rw [← hs]
    decide +kernel
  obtain ⟨c, calls, ts, rest, hrun, hready, -, hscan, hloc⟩ := session_scans [s]
  obtain ⟨c', calls', hfin, hnone⟩ := finish_located hready.toHolds
  rw [List.flatten_singleton] at hscan
  obtain ⟨e, -⟩ := hscan.det (.wait hwait)
  subst e
  refine ⟨c, calls, c', calls', hrun, hfin, ?_⟩
  rw [locatedFrames_append, hnone, hloc]
  exact List.not_mem_nil

end ApogeeFC.Stream
