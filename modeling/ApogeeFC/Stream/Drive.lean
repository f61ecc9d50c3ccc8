import ApogeeFC.Stream.Scanner

/-!
# The decoder on lists

What the decoder does to its pending bytes, with the array and its indices gone. `Drives r reps rest`
is a run of the loop of `process_buffer` from the pending bytes `r`: it makes the calls `reps` and
leaves `rest`. `Feeds r b reps rest` is one `push_byte`.

Both follow the reference scan (`Drives.scans`, `Feeds.scans`): they read the same tokens up to the
same unread suffix, deliver the frames among them in order, and are quiet exactly if nothing was
skipped.
-/

namespace ApogeeFC.Stream
open Codec Scan

/-- What a handler learns from a call: the value of `buffered_size()` and the fields of the event that
are set for its status. -/
inductive Report where
  | frameDecoded (buffered : Nat) (frame : List UInt8)
  | noiseDiscarded (buffered : Nat) (count : Nat)
  | frameRejected (buffered : Nat) (status : DecodeStatus) (bytes : List UInt8)
  | truncated (buffered : Nat) (bytes : List UInt8)
  deriving DecidableEq, Repr

def HandlerCall.report (c : HandlerCall) : Report :=
  match c.event.status with
  | .frameDecoded => .frameDecoded c.bufferedSize c.event.frame.view
  | .noiseDiscarded => .noiseDiscarded c.bufferedSize c.event.discardedBytes
  | .frameRejected => .frameRejected c.bufferedSize c.event.decodeStatus c.event.frame.view
  | .truncated => .truncated c.bufferedSize c.event.frame.view

/-- The frame a call delivers, with the buffered size. -/
def Report.frame? : Report → Option (Nat × List UInt8)
  | .frameDecoded n f => some (n, f)
  | _ => none

/-- The frames delivered by a list of calls. -/
def delivered (reps : List Report) : List (Nat × List UInt8) := reps.filterMap Report.frame?

/-- Nothing but frames was reported. -/
def Quiet (reps : List Report) : Prop := ∀ rep ∈ reps, rep.frame?.isSome

@[simp] lemma delivered_nil : delivered [] = [] := rfl

@[simp] lemma delivered_frame (n f reps) :
    delivered (.frameDecoded n f :: reps) = (n, f) :: delivered reps := rfl

@[simp] lemma delivered_noise (n k reps) :
    delivered (.noiseDiscarded n k :: reps) = delivered reps := rfl

@[simp] lemma delivered_rejected (n st bs reps) :
    delivered (.frameRejected n st bs :: reps) = delivered reps := rfl

@[simp] lemma delivered_append (reps reps' : List Report) :
    delivered (reps ++ reps') = delivered reps ++ delivered reps' := by
  simp [delivered]

@[simp] lemma quiet_nil : Quiet [] := by simp [Quiet]

@[simp] lemma quiet_frame (n f reps) : Quiet (.frameDecoded n f :: reps) ↔ Quiet reps := by
  simp [Quiet, Report.frame?]

@[simp] lemma quiet_noise (n k reps) : ¬ Quiet (.noiseDiscarded n k :: reps) := by
  simp [Quiet, Report.frame?]

@[simp] lemma quiet_rejected (n st bs reps) : ¬ Quiet (.frameRejected n st bs :: reps) := by
  simp [Quiet, Report.frame?]

@[simp] lemma quiet_append (reps reps' : List Report) :
    Quiet (reps ++ reps') ↔ Quiet reps ∧ Quiet reps' := by
  simp only [Quiet, List.mem_append]
  exact ⟨fun h => ⟨fun t m => h t (.inl m), fun t m => h t (.inr m)⟩,
    fun h t m => m.elim (h.1 t) (h.2 t)⟩

/-- The frames among tokens, each with the number of symbols from its start to the end of a stream of
which `n` symbols are left at the first token. -/
def framesAt : Nat → List (Token UInt8) → List (Nat × List UInt8)
  | _, [] => []
  | n, .skip _ :: ts => framesAt (n - 1) ts
  | n, .frame f :: ts => (n, f) :: framesAt (n - f.length) ts

lemma framesAt_append (n : Nat) (ts us : List (Token UInt8)) :
    framesAt n (ts ++ us) = framesAt n ts ++ framesAt (n - (spell ts).length) us := by
  induction ts generalizing n with
  | nil => rfl
  | cons t ts ih =>
    cases t with
    | skip a => simp [framesAt, ih, Nat.sub_sub, Nat.add_comm]
    | frame f => simp [framesAt, ih, Nat.sub_sub]

@[simp] lemma spell_map_skip (noise : List UInt8) :
    spell (noise.map Token.skip) = noise := by
  induction noise with
  | nil => rfl
  | cons a noise ih => simp [ih]

@[simp] lemma framesAt_map_skip (n : Nat) (noise : List UInt8) :
    framesAt n (noise.map Token.skip) = [] := by
  induction noise generalizing n with
  | nil => rfl
  | cons a noise ih => exact ih (n - 1)

/-- The status a rejected candidate is reported with. -/
def rejectStatus (r : List UInt8) : DecodeStatus :=
  if maximumPayloadSize < claimedLength r then .payloadTooLarge
  else (decode (r.take (minimumFrameSize + claimedLength r))).status

/-- The calls of `align_to_sync` on the bytes left after a frame. A lone `A5` is reported as noise of
zero bytes. -/
def alignReports (r : List UInt8) : List Report :=
  if r = [] ∨ Synced r then []
  else [.noiseDiscarded r.length (r.length - (dropToSync r).length)]

/-- The loop of `process_buffer`. -/
inductive Drives : List UInt8 → List Report → List UInt8 → Prop
  | wait {r} : frameVerdict r = .wait → Drives r [] r
  | reject {r reps rest} : Synced r → frameVerdict r = .skip → Drives (dropToSync r.tail) reps rest →
    Drives r (.frameRejected r.length (rejectStatus r) r :: reps) rest
  | deliver {r n reps rest} : frameVerdict r = .take n → Drives (dropToSync (r.drop n)) reps rest →
    Drives r (.frameDecoded r.length (r.take n) :: (alignReports (r.drop n) ++ reps)) rest

/-- `push_byte`. -/
inductive Feeds : List UInt8 → UInt8 → List Report → List UInt8 → Prop
  | start : Feeds [] syncFirst [] [syncFirst]
  | idle {b} : b ≠ syncFirst → Feeds [] b [.noiseDiscarded 0 1] []
  | sync : Feeds [syncFirst] syncSecond [] [syncFirst, syncSecond]
  | slide : Feeds [syncFirst] syncFirst [.noiseDiscarded 1 1] [syncFirst]
  | drop {b} : b ≠ syncFirst → b ≠ syncSecond → Feeds [syncFirst] b [.noiseDiscarded 0 2] []
  | drive {r b reps rest} : Synced r → Drives (r ++ [b]) reps rest → Feeds r b reps rest

lemma delivered_alignReports (r : List UInt8) : delivered (alignReports r) = [] := by
  rw [alignReports]
  split <;> rfl

/-- The loop reads the tokens of the reference scan and delivers its frames. -/
lemma Drives.scans {r reps rest} (h : Drives r reps rest) :
    ∃ ts, Scans frameScanner r ts rest ∧ delivered reps = framesAt r.length ts := by
  induction h with
  | wait h => exact ⟨[], .wait h, rfl⟩
  | @reject r reps rest hs hv _ ih =>
    obtain ⟨ts, hscan, hd⟩ := ih
    obtain ⟨noise, e, hscan'⟩ := scans_dropToSync hscan
    cases r with
    | nil => exact absurd hs not_synced_nil
    | cons a r =>
      rw [List.tail_cons] at e hscan' hd
      refine ⟨.skip a :: (noise.map .skip ++ ts), .skip hv hscan', ?_⟩
      have hl : r.length - noise.length = (dropToSync r).length := by
        have := congrArg List.length e
        rw [List.length_append] at this
        omega
      rw [delivered_rejected, hd, framesAt, framesAt_append, framesAt_map_skip, List.nil_append,
        spell_map_skip, List.length_cons, Nat.add_sub_cancel, hl]
  | @deliver r n reps rest hv _ ih =>
    obtain ⟨ts, hscan, hd⟩ := ih
    obtain ⟨noise, e, hscan'⟩ := scans_dropToSync hscan
    refine ⟨.frame (r.take n) :: (noise.map .skip ++ ts), .take hv hscan', ?_⟩
    have hn := (frameVerdict_take_inv hv).2.2.2.1
    have ht : (r.take n).length = n := by rw [List.length_take, Nat.min_eq_left hn]
    have hl : r.length - n - noise.length = (dropToSync (r.drop n)).length := by
      have := congrArg List.length e
      rw [List.length_append, List.length_drop] at this
      omega
    rw [delivered_frame, delivered_append, delivered_alignReports, List.nil_append, hd, framesAt,
      framesAt_append, framesAt_map_skip, List.nil_append, spell_map_skip, ht, hl]

lemma Drives.rest_wait {r reps rest} (h : Drives r reps rest) : frameVerdict rest = .wait := by
  obtain ⟨ts, hscan, -⟩ := h.scans
  exact hscan.rest_wait

/-- A frame that completes on the last byte uses up the pending bytes. -/
lemma take_eq_length {r : List UInt8} {b n} (hw : frameVerdict r = .wait)
    (h : frameVerdict (r ++ [b]) = .take n) : n = (r ++ [b]).length := by
  obtain ⟨hs, hl, e, hn, -⟩ := frameVerdict_take_inv h
  have h12 : 12 ≤ n := by rw [e]; exact Nat.le_add_right _ _
  rw [List.length_append, List.length_singleton] at hn ⊢
  have hh : headerSize ≤ r.length := by
    change 6 ≤ _
    omega
  obtain ⟨-, -, hc⟩ := frameVerdict_wait_header hw hh
  rw [claimedLength_append hh] at e
  omega

/-- With nothing to read there is nothing to do. -/
lemma Drives.nil_inv {reps rest} (h : Drives [] reps rest) : reps = [] ∧ rest = [] := by
  cases h with
  | wait _ => exact ⟨rfl, rfl⟩
  | reject hs _ _ => exact absurd hs not_synced_nil
  | deliver hv _ => cases hv

/-- A run of the loop on one more byte is quiet exactly if the scan skips nothing. -/
lemma Drives.quiet {r b reps rest ts} (hw : frameVerdict r = .wait)
    (h : Drives (r ++ [b]) reps rest) (hscan : Scans frameScanner (r ++ [b]) ts rest) :
    Quiet reps ↔ Clean ts := by
  generalize e : r ++ [b] = s at h hscan
  cases h with
  | wait hv =>
    obtain ⟨e, -⟩ := hscan.det (.wait hv)
    subst e
    simp
  | reject hs hv _ =>
    cases hscan with
    | wait hv' => exact absurd (hv.symm.trans hv') (by simp)
    | skip _ _ => simp
    | take hv' _ => exact absurd (hv.symm.trans hv') (by simp)
  | @deliver _ n reps rest hv hd =>
    -- the frame is complete with this byte, so nothing is left to align
    have hn : n = s.length := by
      subst e
      exact take_eq_length hw hv
    have hdrop : s.drop n = [] := by rw [hn, List.drop_length]
    rw [hdrop] at hd
    obtain ⟨e1, e2⟩ := hd.nil_inv
    subst e1; subst e2
    have hnil : Scans frameScanner (s.drop n) [] [] := by
      rw [hdrop]
      exact .wait rfl
    obtain ⟨e, -⟩ := hscan.det (.take hv hnil)
    subst e
    simp [hdrop, alignReports]

/-- A byte reads the tokens of the reference scan, delivers its frames, and is quiet exactly if the
scan skips nothing. -/
lemma Feeds.scans {r b reps rest} (hw : frameVerdict r = .wait) (h : Feeds r b reps rest) :
    ∃ ts, Scans frameScanner (r ++ [b]) ts rest ∧ delivered reps = framesAt (r.length + 1) ts ∧
      (Quiet reps ↔ Clean ts) := by
  have hwait : frameScanner.verdict [] = .wait := rfl
  have hwait1 : frameScanner.verdict [syncFirst] = .wait := rfl
  have hskip {b : UInt8} (h : b ≠ syncFirst) : frameScanner.verdict [b] = .skip := by
    change frameVerdict [b] = .skip
    rw [frameVerdict_noise (not_synced_singleton b), if_neg (by simp [h])]
  have hskip2 {b : UInt8} (h : b ≠ syncSecond) : frameScanner.verdict [syncFirst, b] = .skip := by
    change frameVerdict [syncFirst, b] = .skip
    rw [frameVerdict_noise (fun e => h (synced_cons.mp e).2), if_neg (by simp)]
  cases h with
  | start => exact ⟨[], .wait hwait1, rfl, by simp⟩
  | idle h => exact ⟨[.skip b], .skip (hskip h) (.wait hwait), rfl, by simp⟩
  | sync => exact ⟨[], .wait rfl, rfl, by simp⟩
  | slide =>
    exact ⟨[.skip syncFirst], .skip (hskip2 (by decide)) (.wait hwait1), rfl, by simp⟩
  | drop h1 h2 =>
    exact ⟨[.skip syncFirst, .skip b], .skip (hskip2 h2) (.skip (hskip h1) (.wait hwait)), rfl,
      by simp⟩
  | drive _ hd =>
    obtain ⟨ts, hscan, hdel⟩ := hd.scans
    exact ⟨ts, hscan, by rw [hdel, List.length_append, List.length_singleton], hd.quiet hw hscan⟩

end ApogeeFC.Stream
