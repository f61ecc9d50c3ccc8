import ApogeeFC.Stream.Resync
import ApogeeFC.Stream.Session

/-!
# Noise that is none

`align_to_sync` reports what it drops behind a frame. Where it finds a sync pair it checks that there is
something to drop, but where it only keeps a trailing `A5` it does not: if that `A5` is all there is
behind the frame, it reports noise of zero bytes.

A frame usually completes on the last byte pushed, and then nothing is behind it. There is only
something behind it if it was hidden inside a candidate that got rejected. So the report of zero bytes
is made exactly at an `A5` with which such a candidate ends, directly behind a frame (`LoneSync`).
-/

namespace ApogeeFC.Stream
open Codec Scan Mealy

/-- One of the reports is of noise of zero bytes. -/
def Hollow (reps : List Report) : Prop := ∃ n, .noiseDiscarded n 0 ∈ reps

@[simp] lemma hollow_nil : ¬ Hollow [] := by simp [Hollow]

@[simp] lemma hollow_frame (n f reps) : Hollow (.frameDecoded n f :: reps) ↔ Hollow reps := by
  simp [Hollow]

@[simp] lemma hollow_rejected (n st bs reps) :
    Hollow (.frameRejected n st bs :: reps) ↔ Hollow reps := by
  simp [Hollow]

@[simp] lemma hollow_noise (n k reps) :
    Hollow (.noiseDiscarded n k :: reps) ↔ k = 0 ∨ Hollow reps := by
  simp only [Hollow, List.mem_cons, Report.noiseDiscarded.injEq]
  constructor
  · rintro ⟨m, ⟨-, e⟩ | h⟩
    · exact .inl e.symm
    · exact .inr ⟨m, h⟩
  · rintro (e | ⟨m, h⟩)
    · exact ⟨n, .inl ⟨rfl, e.symm⟩⟩
    · exact ⟨m, .inr h⟩

@[simp] lemma hollow_append (reps more : List Report) :
    Hollow (reps ++ more) ↔ Hollow reps ∨ Hollow more := by
  simp [Hollow, exists_or]

/-- The last token is a frame. -/
def EndsInFrame (ts : List (Token UInt8)) : Prop := ∃ us f, ts = us ++ [.frame f]

lemma not_endsInFrame_nil : ¬ EndsInFrame [] := by
  rintro ⟨us, f, e⟩
  simp at e

/-- What matters is the last token. -/
lemma endsInFrame_append {ts us : List (Token UInt8)} (h : us ≠ []) :
    EndsInFrame (ts ++ us) ↔ EndsInFrame us := by
  constructor
  · rintro ⟨vs, f, e⟩
    obtain ⟨ws, t, e'⟩ := (List.eq_nil_or_concat' us).resolve_left h
    subst e'
    rw [← List.append_assoc] at e
    obtain ⟨-, e⟩ := List.append_inj' e rfl
    exact ⟨ws, f, by rw [e]⟩
  · rintro ⟨vs, f, e⟩
    exact ⟨ts ++ vs, f, by rw [e, List.append_assoc]⟩

lemma not_endsInFrame_skip (a : UInt8) (noise : List UInt8) :
    ¬ EndsInFrame (.skip a :: noise.map .skip) := by
  rintro ⟨us, f, e⟩
  have hmem : Token.frame f ∈ .skip a :: noise.map Token.skip := by
    rw [e]
    simp
  simp at hmem

/-- Only a lone `A5` is kept whole without a sync pair. -/
lemma length_dropToSync_eq {r : List UInt8} (hr : r ≠ []) (hs : ¬ Synced r) :
    (dropToSync r).length = r.length ↔ r = [syncFirst] := by
  match r with
  | [] => exact absurd rfl hr
  | [a] =>
    rw [dropToSync]
    split
    case isTrue ha => simp [ha]
    case isFalse ha => simp [ha]
  | a :: b :: r =>
    have hle := length_dropToSync (b :: r)
    rw [dropToSync_cons hs]
    simp only [List.length_cons] at hle ⊢
    constructor
    · intro e
      omega
    · simp

lemma hollow_alignReports (r : List UInt8) : Hollow (alignReports r) ↔ r = [syncFirst] := by
  rw [alignReports]
  split
  case isTrue h =>
    refine iff_of_false hollow_nil fun e => ?_
    subst e
    obtain e | hs := h
    · cases e
    · exact absurd hs (not_synced_singleton _)
  case isFalse h =>
    obtain ⟨hr, hs⟩ := not_or.mp h
    have hle := length_dropToSync r
    rw [hollow_noise, or_iff_left hollow_nil, ← length_dropToSync_eq hr hs]
    omega

/-- The loop reports no noise of zero bytes unless it ends with a lone `A5` behind a frame. -/
lemma Drives.hollow {r reps rest} (h : Drives r reps rest) :
    ∃ ts, Scans frameScanner r ts rest ∧ (Hollow reps ↔ rest = [syncFirst] ∧ EndsInFrame ts) := by
  induction h with
  | wait hv => exact ⟨[], .wait hv, by simp [not_endsInFrame_nil]⟩
  | @reject r reps rest hs hv hd ih =>
    obtain ⟨ts, hscan, hiff⟩ := ih
    obtain ⟨noise, -, hscan'⟩ := scans_dropToSync hscan
    cases r with
    | nil => exact absurd hs not_synced_nil
    | cons a r =>
      rw [List.tail_cons] at hscan'
      refine ⟨.skip a :: (noise.map .skip ++ ts), .skip hv hscan', ?_⟩
      rw [hollow_rejected, hiff, ← List.cons_append]
      by_cases hts : ts = []
      · rw [hts, List.append_nil]
        simp [not_endsInFrame_skip, not_endsInFrame_nil]
      · rw [endsInFrame_append hts]
  | @deliver r n reps rest hv hd ih =>
    obtain ⟨ts, hscan, hiff⟩ := ih
    obtain ⟨noise, e, hscan'⟩ := scans_dropToSync hscan
    refine ⟨.frame (r.take n) :: (noise.map .skip ++ ts), .take hv hscan', ?_⟩
    rw [hollow_frame, hollow_append, hollow_alignReports, hiff]
    -- nothing is read behind the frame if only a lone `A5` is there
    have hlone : r.drop n = [syncFirst] → ts = [] ∧ noise = [] ∧ rest = [syncFirst] := by
      intro hr
      rw [hr] at hscan e
      obtain ⟨e1, e2⟩ := hscan.det (.wait (r := [syncFirst]) rfl)
      refine ⟨e1, ?_, e2⟩
      exact List.append_left_eq_self.mp e
    by_cases hts : ts = []
    case neg =>
      rw [← List.cons_append, endsInFrame_append hts]
      exact or_iff_right fun hr => hts (hlone hr).1
    subst hts
    have hrest : rest = dropToSync (r.drop n) := hscan.spell
    rw [List.append_nil, or_iff_left fun h => not_endsInFrame_nil h.2]
    constructor
    · intro hr
      obtain ⟨-, en, er⟩ := hlone hr
      subst en
      exact ⟨er, [], r.take n, rfl⟩
    · rintro ⟨er, hends⟩
      cases noise with
      | nil => rw [← e, List.nil_append, ← hrest, er]
      | cons a noise =>
        rw [List.map_cons, ← List.singleton_append, endsInFrame_append (by simp)] at hends
        exact absurd hends (not_endsInFrame_skip a noise)

/-- A byte: the buffer must not have been empty, since then nothing is reported of an `A5`. -/
lemma Feeds.hollow {r b reps rest} (hw : frameVerdict r = .wait) (h : Feeds r b reps rest) :
    ∃ ts, Scans frameScanner (r ++ [b]) ts rest ∧
      (Hollow reps ↔ r ≠ [] ∧ rest = [syncFirst] ∧ EndsInFrame ts) := by
  obtain ⟨ts, hscan, hdel, -⟩ := h.scans hw
  refine ⟨ts, hscan, ?_⟩
  cases h with
  | start => simp
  | idle _ => simp
  | sync => simp
  | slide =>
    -- no frame was delivered, so the scan did not end with one
    refine iff_of_false (by simp) ?_
    rintro ⟨-, -, us, f, e⟩
    rw [e, framesAt_append] at hdel
    simp [framesAt] at hdel
  | drop _ _ => simp
  | drive hs hd =>
    obtain ⟨us, hscan', hiff⟩ := hd.hollow
    obtain ⟨e, -⟩ := hscan.det hscan'
    have hr : r ≠ [] := by
      intro e
      subst e
      exact absurd hs not_synced_nil
    rw [hiff, e, and_iff_right hr]

/-- After the bytes `s`, of which some are pending, an `A5` ends a scan that has just read a frame. -/
def LoneSync (s : List UInt8) : Prop :=
  (frameScanner.scan s).2 ≠ [] ∧ (frameScanner.scan (s ++ [syncFirst])).2 = [syncFirst] ∧
    EndsInFrame (frameScanner.scan (s ++ [syncFirst])).1

/-- A scan that ends with one symbol left has read something if there was more. -/
lemma ne_nil_of_pending {r : List UInt8} {ts} (hr : r ≠ [])
    (h : Scans frameScanner (r ++ [syncFirst]) ts [syncFirst]) : ts ≠ [] := by
  intro e
  subst e
  exact hr (List.append_left_eq_self.mp h.spell.symm)

/-- A candidate that the scan skips when an `A5` arrives was completed by it and got rejected, if there
is a frame in it. -/
lemma rejected_of_skip {r : List UInt8} {vs f} (hw : frameVerdict r = .wait)
    (hv : frameVerdict (r ++ [syncFirst]) = .skip)
    (hscan : Scans frameScanner (r.tail ++ [syncFirst]) (vs ++ [.frame f]) [syncFirst]) :
    Synced r ∧ r.length + 1 = minimumFrameSize + claimedLength r ∧
      ¬ (decode (r ++ [syncFirst])).ok := by
  -- the frame alone has 12 bytes
  have hf : frameScanner.Accepts f := hscan.accepts f (by simp)
  have h12 := length_of_accepts hf
  change 12 ≤ _ at h12
  have hlen : f.length ≤ r.length := by
    have hsp := congrArg List.length hscan.spell
    simp at hsp
    omega
  have hh : headerSize ≤ r.length := by
    change 6 ≤ _
    omega
  obtain ⟨hs, hl, hc⟩ := frameVerdict_wait_header hw hh
  have hfull : r.length + 1 = minimumFrameSize + claimedLength r := by
    by_contra hne
    have hcl := claimedLength_append hh [syncFirst]
    have hp := frameVerdict_pending (hs.append [syncFirst]) (by rwa [hcl])
      (by rw [hcl, List.length_append, List.length_singleton]; omega)
    cases hp.symm.trans hv
  rw [frameVerdict_completed hs hl hfull] at hv
  refine ⟨hs, hfull, fun hok => ?_⟩
  rw [if_pos hok] at hv
  cases hv

/-- A scan that ends with a frame and an `A5` behind pending bytes skips the first of these. -/
lemma skips_of_endsInFrame {r : List UInt8} {ws} (hw : frameVerdict r = .wait) (hr : r ≠ [])
    (h : Scans frameScanner (r ++ [syncFirst]) ws [syncFirst]) (hends : EndsInFrame ws) :
    frameVerdict (r ++ [syncFirst]) = .skip ∧
      ∃ vs f, Scans frameScanner (r.tail ++ [syncFirst]) (vs ++ [.frame f]) [syncFirst] := by
  rw [← List.tail_append_of_ne_nil hr]
  generalize hq : r ++ [syncFirst] = q at h
  cases h with
  | wait _ => exact absurd hends not_endsInFrame_nil
  | @skip b t ts _ hv hskip =>
    have hts : ts ≠ [] := by
      intro hts
      subst hts
      exact not_endsInFrame_skip b [] hends
    obtain ⟨vs, f, ets⟩ := (@endsInFrame_append [.skip b] ts hts).mp hends
    subst ets
    exact ⟨hv, vs, f, hskip⟩
  | @take _ n ts _ hv hrest =>
    -- a frame that completes on the last byte leaves nothing
    rw [← hq] at hv hrest
    rw [take_eq_length hw hv, List.drop_length] at hrest
    have hsp := hrest.spell
    simp at hsp

/-- A lone `A5` completes a candidate that is rejected, and a frame ends directly before it. -/
lemma loneSync_iff {s : List UInt8} :
    LoneSync s ↔ ∃ us r vs f, Scans frameScanner s us r ∧ Synced r ∧
      r.length + 1 = minimumFrameSize + claimedLength r ∧ ¬ (decode (r ++ [syncFirst])).ok ∧
      Scans frameScanner (r.tail ++ [syncFirst]) (vs ++ [.frame f]) [syncFirst] := by
  have hscan := scan_scans frameScanner s
  constructor
  · rintro ⟨hr, e, hends⟩
    generalize (frameScanner.scan s).1 = us, (frameScanner.scan s).2 = r at hscan hr
    have hscan' := scan_scans frameScanner (r ++ [syncFirst])
    rw [(hscan.append hscan').scan_eq] at e hends
    rw [e] at hscan'
    have hends := (endsInFrame_append (ne_nil_of_pending hr hscan')).mp hends
    obtain ⟨hv, vs, f, hskip⟩ := skips_of_endsInFrame hscan.rest_wait hr hscan' hends
    obtain ⟨hs, hfull, hrej⟩ := rejected_of_skip hscan.rest_wait hv hskip
    exact ⟨us, r, vs, f, hscan, hs, hfull, hrej, hskip⟩
  · rintro ⟨us, r, vs, f, hs, hsync, hfull, hrej, hscan'⟩
    have hh : headerSize ≤ r.length := by
      change 6 ≤ _
      change _ = 12 + _ at hfull
      omega
    obtain ⟨-, hl, -⟩ := frameVerdict_wait_header hs.rest_wait hh
    have hskip : frameVerdict (r ++ [syncFirst]) = .skip := by
      rw [frameVerdict_completed hsync hl hfull, if_neg hrej]
    cases r with
    | nil => exact absurd hsync not_synced_nil
    | cons b t =>
      have hall := hs.append (.skip hskip hscan')
      rw [LoneSync, hs.scan_eq, hall.scan_eq]
      exact ⟨List.cons_ne_nil b t, rfl, us ++ .skip b :: vs, f, by simp⟩

/-- A call of the handler that reports noise of zero bytes. -/
def HandlerCall.Empty (c : HandlerCall) : Prop :=
  c.event.status = .noiseDiscarded ∧ c.event.discardedBytes = 0

lemma hollow_calls {calls : List HandlerCall} :
    Hollow (calls.map HandlerCall.report) ↔ ∃ c ∈ calls, c.Empty := by
  simp only [Hollow, List.mem_map]
  constructor
  · rintro ⟨n, c, hc, e⟩
    refine ⟨c, hc, ?_⟩
    cases hs : c.event.status <;> simp [HandlerCall.report, hs] at e
    exact ⟨hs, e.2⟩
  · rintro ⟨c, hc, hs, hz⟩
    exact ⟨c.bufferedSize, c, hc, by simp [HandlerCall.report, hs, hz]⟩

lemma empty_append {calls more : List HandlerCall} :
    (∃ c ∈ calls ++ more, c.Empty) ↔ (∃ c ∈ calls, c.Empty) ∨ ∃ c ∈ more, c.Empty := by
  simp only [List.mem_append, or_and_right, exists_or]

/-- The decoder has been fed the bytes `s`. -/
def Fed (d : FrameStreamDecoder) (s : List UInt8) : Prop :=
  ∃ ts r, Ready d r ∧ Scans frameScanner s ts r

lemma pushByte_hollow {d : FrameStreamDecoder} {s : List UInt8} (h : Fed d s) (b : UInt8) :
    ∃ d' calls, d.pushByte b = some (d', calls) ∧ Fed d' (s ++ [b]) ∧
      ((∃ c ∈ calls, c.Empty) ↔ b = syncFirst ∧ LoneSync s) := by
  obtain ⟨ts, r, hready, hscan⟩ := h
  obtain ⟨d', calls, r', hpush, hh, hfeeds⟩ := pushByte_feeds hready.toHolds hready.waits b
  obtain ⟨us, hscan', hiff⟩ := hfeeds.hollow hready.waits
  have hall := hscan.append hscan'
  refine ⟨d', calls, hpush, ⟨_, r', ⟨hh, hscan'.rest_wait⟩, hall⟩, ?_⟩
  rw [← hollow_calls, hiff, LoneSync, hscan.scan_eq]
  constructor
  · rintro ⟨hr, e, hends⟩
    have hus : us ≠ [] := by
      intro hus
      subst hus
      exact not_endsInFrame_nil hends
    have hsp := hall.spell
    rw [e] at hsp
    obtain ⟨-, eb⟩ := List.append_inj' hsp rfl
    cases eb
    rw [hall.scan_eq]
    exact ⟨rfl, hr, e, (endsInFrame_append hus).mpr hends⟩
  · rintro ⟨eb, hr, e, hends⟩
    subst eb
    rw [hall.scan_eq] at e hends
    have hus : us ≠ [] := ne_nil_of_pending hr (e ▸ hscan')
    exact ⟨hr, e, (endsInFrame_append hus).mp hends⟩

/-- Pushing bytes reports noise of zero bytes exactly if one of them is a lone `A5`. -/
lemma push_hollow {d : FrameStreamDecoder} {s : List UInt8} (h : Fed d s) (bytes : List UInt8) :
    ∃ d' calls, d.push bytes = some (d', calls) ∧ Fed d' (s ++ bytes) ∧
      ((∃ c ∈ calls, c.Empty) ↔
        ∃ before after, bytes = before ++ syncFirst :: after ∧ LoneSync (s ++ before)) := by
  induction bytes generalizing d s with
  | nil => exact ⟨d, [], rfl, by rwa [List.append_nil], by simp⟩
  | cons b bytes ih =>
    obtain ⟨d1, calls1, hpush1, hfed1, hiff1⟩ := pushByte_hollow h b
    obtain ⟨d2, calls2, hpush2, hfed2, hiff2⟩ := ih hfed1
    refine ⟨d2, calls1 ++ calls2, run_cons hpush1 hpush2, ?_, ?_⟩
    · rwa [List.append_assoc] at hfed2
    rw [empty_append, hiff1, hiff2]
    constructor
    · rintro (⟨e, hl⟩ | ⟨before, after, e, hl⟩)
      · exact ⟨[], bytes, by rw [e]; rfl, by rwa [List.append_nil]⟩
      · refine ⟨b :: before, after, by rw [e]; rfl, ?_⟩
        rwa [List.append_assoc] at hl
    · rintro ⟨before, after, e, hl⟩
      cases before with
      | nil =>
        cases e
        rw [List.append_nil] at hl
        exact .inl ⟨rfl, hl⟩
      | cons b' before =>
        cases e
        refine .inr ⟨before, after, rfl, ?_⟩
        rwa [List.append_assoc]

/-- The bytes pushed since the last `finish`, given those before the call. -/
def sinceFinish (s : List UInt8) : StreamCall → List UInt8
  | .push bytes => s ++ bytes
  | .finish => []

/-- The call pushes a lone `A5`, after the bytes `s`. -/
def MeetsLoneSync (s : List UInt8) (call : StreamCall) : Prop :=
  ∃ before after, call = .push (before ++ syncFirst :: after) ∧ LoneSync (s ++ before)

lemma finish_hollow {d : FrameStreamDecoder} {s : List UInt8} (h : Fed d s) :
    ∃ d' calls, d.finish = some (d', calls) ∧ Fed d' [] ∧ ¬ ∃ c ∈ calls, c.Empty := by
  obtain ⟨ts, r, hready, hscan⟩ := h
  obtain ⟨d', calls, hfinish, -, hreps⟩ := finish_drops hready.toHolds
  refine ⟨d', calls, hfinish, ⟨[], [], .empty (size_finish hfinish), .wait rfl⟩, ?_⟩
  rw [← hollow_calls, hreps]
  split <;> simp [Hollow]

lemma perform_hollow {d : FrameStreamDecoder} {s : List UInt8} (h : Fed d s) (call : StreamCall) :
    ∃ d' calls, d.perform call = some (d', calls) ∧ Fed d' (sinceFinish s call) ∧
      ((∃ c ∈ calls, c.Empty) ↔ MeetsLoneSync s call) := by
  cases call with
  | push bytes =>
    obtain ⟨d', calls, hpush, hfed, hiff⟩ := push_hollow h bytes
    refine ⟨d', calls, hpush, hfed, ?_⟩
    simpa [MeetsLoneSync] using hiff
  | finish =>
    obtain ⟨d', calls, hfinish, hfed, hnone⟩ := finish_hollow h
    exact ⟨d', calls, hfinish, hfed, iff_of_false hnone (by simp [MeetsLoneSync])⟩

lemma session_hollow {d : FrameStreamDecoder} {s : List UInt8} (h : Fed d s)
    (session : List StreamCall) :
    ∃ d' calls, run FrameStreamDecoder.perform d session = some (d', calls) ∧
      ((∃ c ∈ calls, c.Empty) ↔ ∃ before call after, session = before ++ call :: after ∧
        MeetsLoneSync (before.foldl sinceFinish s) call) := by
  induction session generalizing d s with
  | nil => exact ⟨d, [], rfl, by simp⟩
  | cons call session ih =>
    obtain ⟨d1, calls1, hperform, hfed, hiff1⟩ := perform_hollow h call
    obtain ⟨d2, calls2, hrun, hiff2⟩ := ih hfed
    refine ⟨d2, calls1 ++ calls2, run_cons hperform hrun, ?_⟩
    rw [empty_append, hiff1, hiff2]
    constructor
    · rintro (hm | ⟨before, call', after, e, hm⟩)
      · exact ⟨[], call, session, rfl, hm⟩
      · exact ⟨call :: before, call', after, by rw [e]; rfl, hm⟩
    · rintro ⟨before, call', after, e, hm⟩
      cases before with
      | nil =>
        cases e
        exact .inl hm
      | cons call'' before =>
        cases e
        exact .inr ⟨before, call', after, rfl, hm⟩

/-- Every report of noise counts a byte at least exactly if no call pushes a lone `A5`. -/
theorem noise_counts_bytes_iff (session : List StreamCall) :
    ∃ d events, run FrameStreamDecoder.perform {} session = some (d, events) ∧
      ((∀ c ∈ events, c.event.status = .noiseDiscarded → 1 ≤ c.event.discardedBytes) ↔
        ∀ before call after, session = before ++ call :: after →
          ¬ MeetsLoneSync (before.foldl sinceFinish []) call) := by
  have hfed : Fed {} [] := ⟨[], [], .empty rfl, .wait rfl⟩
  obtain ⟨d, events, hrun, hiff⟩ := session_hollow hfed session
  refine ⟨d, events, hrun, ?_⟩
  have hnone : (∀ c ∈ events, c.event.status = .noiseDiscarded → 1 ≤ c.event.discardedBytes) ↔
      ¬ ∃ c ∈ events, c.Empty := by
    simp only [HandlerCall.Empty, not_exists, not_and]
    exact forall₂_congr fun c _ => imp_congr_right fun _ => Nat.one_le_iff_ne_zero
  rw [hnone, hiff]
  simp only [not_exists, not_and]

/-- A header that claims 20 bytes, a ping of 13 bytes behind it, then `A5`. -/
def hiddenPing : List UInt8 := falseHeader ++ (encode pingFrame).frame.view ++ [syncFirst]

theorem hiddenPing_noise_zero :
    ¬ ∀ d events, run FrameStreamDecoder.perform {} [.push hiddenPing] = some (d, events) →
      ∀ c ∈ events, c.event.status = .noiseDiscarded → 1 ≤ c.event.discardedBytes := by
  have hbad : (run FrameStreamDecoder.perform {} [.push hiddenPing]).any (fun x =>
      x.2.any fun c => decide (c.event.status = .noiseDiscarded) &&
        decide (c.event.discardedBytes = 0)) = true := by decide +kernel
  rw [Option.any_eq_true] at hbad
  obtain ⟨⟨d, events⟩, hrun, hbad⟩ := hbad
  obtain ⟨c, hc, hempty⟩ := List.any_eq_true.mp hbad
  rw [Bool.and_eq_true, decide_eq_true_eq, decide_eq_true_eq] at hempty
  intro h
  have hpos := h d events hrun c hc hempty.1
  omega

end ApogeeFC.Stream
