import ApogeeFC.Stream.Accounting

/-!
# Sessions

A session is any sequence of calls of `push` and `finish` on one decoder. Between the calls the fields
satisfy `WellFormed`, which is `Ready` said about the array: the buffer is empty or starts like a frame
that is not complete and not too long.

`push_byte` has no check before `buffer_[size_++] = byte`, so what the buffer holds within a call
matters as well. `pushByteSizes` lists the values that are assigned to `size_` on the way. None is more
than the capacity, since only the first assignment makes the buffer longer (`session_bounded`).
-/

namespace ApogeeFC.Stream
open Buffer LittleEndian Codec Mealy

/-- A call of the decoder. -/
inductive StreamCall where
  | push (bytes : List UInt8)
  | finish
  deriving DecidableEq, Repr

namespace FrameStreamDecoder

def perform (d : FrameStreamDecoder) : StreamCall → Option (FrameStreamDecoder × List HandlerCall)
  | .push bytes => d.push bytes
  | .finish => d.finish

/-- What the fields satisfy between calls. -/
structure WellFormed (d : FrameStreamDecoder) : Prop where
  fits : d.size ≤ 75
  first : 1 ≤ d.size → read d.buffer 0 = some syncFirst
  second : 2 ≤ d.size → read d.buffer 1 = some syncSecond
  incomplete : headerSize ≤ d.size → ∃ low high, read d.buffer 4 = some low ∧
    read d.buffer 5 = some high ∧ (word16 low high).toNat ≤ maximumPayloadSize ∧
    d.size < minimumFrameSize + (word16 low high).toNat

/-! ## The values of `size_` within a call -/

/-- What delivering a frame assigns to `size_`. -/
def deliverSizes (d : FrameStreamDecoder) : Option (List Nat) := do
  let d1 ← d.retain d.expectedSize
  let (d2, _) ← { d1 with expectedSize := 0 }.alignToSync
  some [d1.size, d2.size]

/-- What a round of the loop of `process_buffer` assigns to `size_`. -/
def roundSizes (d : FrameStreamDecoder) : Option (List Nat) :=
  if d.size < headerSize then some []
  else do
    let low ← read d.buffer 4
    let high ← read d.buffer 5
    let payloadLength := (word16 low high).toNat
    if maximumPayloadSize < payloadLength then do
      let (d, _) ← d.reject .payloadTooLarge
      some [d.size]
    else
      let d := { d with expectedSize := minimumFrameSize + payloadLength }
      if d.size < d.expectedSize then some []
      else do
        let candidate ← slice d.buffer d.expectedSize
        if (decode candidate).ok then d.deliverSizes
        else do
          let (d, _) ← d.reject (decode candidate).status
          some [d.size]

def bufferSizes : Nat → FrameStreamDecoder → Option (List Nat)
  | 0, _ => none
  | rounds + 1, d => do
    let sizes ← d.roundSizes
    let (again, d, _) ← d.processRound
    if again then do
      let more ← bufferSizes rounds d
      some (sizes ++ more)
    else some sizes

/-- The values that `push_byte` assigns to `size_`, in this order. -/
def pushByteSizes (d : FrameStreamDecoder) (byte : UInt8) : Option (List Nat) :=
  if d.size = 0 then
    if byte = syncFirst then do
      let d ← d.append byte
      some [d.size]
    else some []
  else if d.size = 1 then
    if byte = syncSecond then do
      let d ← d.append byte
      some [d.size]
    else if byte = syncFirst then some []
    else some [0]
  else do
    let d ← d.append byte
    let sizes ← d.bufferSizes (d.size + 1)
    some (d.size :: sizes)

/-- The decoder after a byte, and the values that were assigned to `size_` in between. -/
def stepSizes (d : FrameStreamDecoder) (byte : UInt8) : Option (FrameStreamDecoder × List Nat) := do
  let (d', _) ← d.pushByte byte
  let sizes ← d.pushByteSizes byte
  some (d', sizes)

/-- The decoder after a call, and the values that were assigned to `size_` in between. -/
def performSizes (d : FrameStreamDecoder) : StreamCall → Option (FrameStreamDecoder × List Nat)
  | .push bytes => run stepSizes d bytes
  | .finish => do
    let (d', _) ← d.finish
    some (d', if d.size = 0 then [] else [d'.size])

end FrameStreamDecoder

section Sizes
variable {d d' : FrameStreamDecoder} {calls : List HandlerCall}

lemma size_append {byte : UInt8} (h : d.append byte = some d') :
    d'.size = d.size + 1 ∧ d'.size ≤ maximumFrameSize := by
  obtain ⟨buffer, hw, h⟩ := Option.bind_eq_some_iff.mp h
  cases h
  exact ⟨rfl, lt_of_write hw⟩

lemma size_retain {offset : Nat} (h : d.retain offset = some d') : d'.size = d.size - offset := by
  obtain ⟨buffer, -, h⟩ := Option.bind_eq_some_iff.mp h
  cases h
  rfl

lemma size_keepSyncFirst (h : d.keepSyncFirst = some d') : d'.size = 1 := by
  rw [FrameStreamDecoder.keepSyncFirst] at h
  obtain ⟨buffer, -, h⟩ := Option.bind_eq_some_iff.mp h
  cases h
  rfl

/-- There is a last byte only if there is a byte. -/
lemma size_last {byte : UInt8} (h : d.last = some byte) : 0 < d.size := by
  rw [FrameStreamDecoder.last] at h
  split at h
  · cases h
  · omega

lemma size_rescan (h : d.rescan = some d') : d'.size ≤ d.size := by
  obtain ⟨offset, -, h⟩ := Option.bind_eq_some_iff.mp h
  dsimp only at h
  split at h
  · obtain ⟨d1, hretain, h⟩ := Option.bind_eq_some_iff.mp h
    cases h
    exact (size_retain hretain).trans_le (Nat.sub_le _ _)
  obtain ⟨byte, hlast, h⟩ := Option.bind_eq_some_iff.mp h
  split at h
  · obtain ⟨d1, hkeep, h⟩ := Option.bind_eq_some_iff.mp h
    cases h
    exact (size_keepSyncFirst hkeep).trans_le (size_last hlast)
  · cases h
    exact Nat.zero_le _

lemma size_reject {status : DecodeStatus} (h : d.reject status = some (d', calls)) :
    d'.size ≤ d.size := by
  obtain ⟨frame, -, h⟩ := Option.bind_eq_some_iff.mp h
  obtain ⟨d1, hrescan, h⟩ := Option.bind_eq_some_iff.mp h
  cases h
  exact size_rescan hrescan

lemma size_alignToSync (h : d.alignToSync = some (d', calls)) : d'.size ≤ d.size := by
  rw [FrameStreamDecoder.alignToSync] at h
  split at h
  · cases h
    exact Nat.le_refl _
  obtain ⟨offset, -, h⟩ := Option.bind_eq_some_iff.mp h
  split at h
  · split at h
    · obtain ⟨d1, hretain, h⟩ := Option.bind_eq_some_iff.mp h
      cases h
      exact (size_retain hretain).trans_le (Nat.sub_le _ _)
    · cases h
      exact Nat.le_refl _
  · obtain ⟨byte, hlast, h⟩ := Option.bind_eq_some_iff.mp h
    split at h
    · obtain ⟨d1, hkeep, h⟩ := Option.bind_eq_some_iff.mp h
      cases h
      exact (size_keepSyncFirst hkeep).trans_le (size_last hlast)
    · cases h
      exact Nat.zero_le _

/-- Values assigned to `size_`, which was `start` before and is `last` after them. -/
structure Assigned (bound start : Nat) (sizes : List Nat) (last : Nat) : Prop where
  le : ∀ n ∈ sizes, n ≤ bound
  last : last = sizes.getLast?.getD start

lemma Assigned.nil (bound start : Nat) : Assigned bound start [] start := ⟨by simp, rfl⟩

lemma Assigned.singleton {bound start n : Nat} (h : n ≤ bound) : Assigned bound start [n] n :=
  ⟨by simpa using h, rfl⟩

lemma Assigned.last_le {start last : Nat} {sizes : List Nat} (h : Assigned start start sizes last) :
    last ≤ start := by
  rw [h.last]
  cases hl : sizes.getLast? with
  | none => exact Nat.le_refl _
  | some n => exact h.le n (List.mem_of_getLast? hl)

lemma Assigned.append {bound bound' start n last : Nat} {sizes more : List Nat}
    (h : Assigned bound start sizes n) (h' : Assigned bound' n more last) (hb : bound' ≤ bound) :
    Assigned bound start (sizes ++ more) last where
  le := List.forall_mem_append.mpr ⟨h.le, fun n hn => Nat.le_trans (h'.le n hn) hb⟩
  last := by
    rw [h'.last, h.last, List.getLast?_append]
    cases more.getLast? <;> rfl

lemma deliver_sizes (h : d.deliver = some (d', calls)) :
    ∃ sizes, d.deliverSizes = some sizes ∧ Assigned d.size d.size sizes d'.size := by
  obtain ⟨frame, -, h⟩ := Option.bind_eq_some_iff.mp h
  obtain ⟨d1, hretain, h⟩ := Option.bind_eq_some_iff.mp h
  obtain ⟨⟨d2, more⟩, halign, h⟩ := Option.bind_eq_some_iff.mp h
  cases h
  have h1 : d1.size ≤ d.size := (size_retain hretain).trans_le (Nat.sub_le _ _)
  have h2 := size_alignToSync halign
  refine ⟨[d1.size, d'.size], by simp [FrameStreamDecoder.deliverSizes, hretain, halign], ?_⟩
  exact (Assigned.singleton h1).append (.singleton h2) h1

lemma processRound_sizes {again : Bool} (h : d.processRound = some (again, d', calls)) :
    ∃ sizes, d.roundSizes = some sizes ∧ Assigned d.size d.size sizes d'.size := by
  rw [FrameStreamDecoder.processRound] at h
  rw [FrameStreamDecoder.roundSizes]
  split at h
  case isTrue hs =>
    cases h
    rw [if_pos hs]
    exact ⟨[], rfl, .nil _ _⟩
  case isFalse hs =>
    obtain ⟨low, hlow, h⟩ := Option.bind_eq_some_iff.mp h
    obtain ⟨high, hhigh, h⟩ := Option.bind_eq_some_iff.mp h
    simp only [if_neg hs, hlow, hhigh, Option.bind_eq_bind, Option.bind_some]
    dsimp only at h
    split at h
    case isTrue hl =>
      obtain ⟨⟨d1, calls1⟩, hreject, h⟩ := Option.bind_eq_some_iff.mp h
      cases h
      rw [if_pos hl, hreject]
      exact ⟨_, rfl, .singleton (size_reject hreject)⟩
    case isFalse hl =>
      rw [if_neg hl]
      split at h
      case isTrue hp =>
        cases h
        rw [if_pos hp]
        exact ⟨[], rfl, .nil _ _⟩
      case isFalse hp =>
        obtain ⟨candidate, hslice, h⟩ := Option.bind_eq_some_iff.mp h
        rw [if_neg hp, hslice, Option.bind_some]
        split at h
        case isTrue hok =>
          obtain ⟨⟨d1, calls1⟩, hdeliver, h⟩ := Option.bind_eq_some_iff.mp h
          cases h
          rw [if_pos hok]
          exact deliver_sizes hdeliver
        case isFalse hok =>
          obtain ⟨⟨d1, calls1⟩, hreject, h⟩ := Option.bind_eq_some_iff.mp h
          cases h
          have hle := size_reject hreject
          rw [if_neg hok, hreject]
          exact ⟨_, rfl, .singleton hle⟩

lemma processBuffer_sizes {rounds : Nat} (h : d.processBuffer rounds = some (d', calls)) :
    ∃ sizes, d.bufferSizes rounds = some sizes ∧ Assigned d.size d.size sizes d'.size := by
  induction rounds generalizing d calls with
  | zero => cases h
  | succ rounds ih =>
    obtain ⟨⟨again, d1, calls1⟩, hround, h⟩ := Option.bind_eq_some_iff.mp h
    obtain ⟨sizes, hsizes, ha⟩ := processRound_sizes hround
    simp only [FrameStreamDecoder.bufferSizes, hsizes, hround, Option.bind_eq_bind, Option.bind_some]
    dsimp only at h
    split at h
    case isTrue hagain =>
      obtain ⟨⟨d2, calls2⟩, hrest, h⟩ := Option.bind_eq_some_iff.mp h
      cases h
      obtain ⟨more, hmore, ha'⟩ := ih hrest
      rw [if_pos hagain, hmore]
      exact ⟨_, rfl, ha.append ha' ha.last_le⟩
    case isFalse hagain =>
      cases h
      rw [if_neg hagain]
      exact ⟨_, rfl, ha⟩

lemma append_sizes {byte : UInt8} (h : d.append byte = some d') :
    ∃ sizes, (do
        let d ← d.append byte
        some [d.size]) = some sizes ∧
      Assigned maximumFrameSize d.size sizes d'.size :=
  ⟨[d'.size], by rw [h]; rfl, .singleton (size_append h).2⟩

/-- Only the byte that is appended makes the buffer longer. -/
lemma pushByte_sizes {byte : UInt8} (h : d.pushByte byte = some (d', calls)) :
    ∃ sizes, d.pushByteSizes byte = some sizes ∧ Assigned maximumFrameSize d.size sizes d'.size := by
  rw [FrameStreamDecoder.pushByte] at h
  rw [FrameStreamDecoder.pushByteSizes]
  split at h
  case isTrue h0 =>
    rw [if_pos h0]
    split at h
    case isTrue hb =>
      obtain ⟨d1, happend, h⟩ := Option.bind_eq_some_iff.mp h
      cases h
      rw [if_pos hb]
      exact append_sizes happend
    case isFalse hb =>
      cases h
      rw [if_neg hb]
      exact ⟨_, rfl, .nil _ _⟩
  case isFalse h0 =>
    rw [if_neg h0]
    split at h
    case isTrue h1 =>
      rw [if_pos h1]
      split at h
      case isTrue hb =>
        obtain ⟨d1, happend, h⟩ := Option.bind_eq_some_iff.mp h
        cases h
        rw [if_pos hb]
        exact append_sizes happend
      case isFalse hb =>
        rw [if_neg hb]
        split at h
        case isTrue hb' =>
          cases h
          rw [if_pos hb']
          exact ⟨_, rfl, .nil _ _⟩
        case isFalse hb' =>
          cases h
          rw [if_neg hb']
          exact ⟨_, rfl, .singleton (Nat.zero_le _)⟩
    case isFalse h1 =>
      obtain ⟨d1, happend, h⟩ := Option.bind_eq_some_iff.mp h
      obtain ⟨sizes, hsizes, ha⟩ := processBuffer_sizes h
      have hle := (size_append happend).2
      rw [if_neg h1, happend, Option.bind_eq_bind, Option.bind_some, hsizes]
      exact ⟨_, rfl, (Assigned.singleton hle).append ha hle⟩

end Sizes

/-! ## What a candidate is rejected for -/

/-- The statuses a complete candidate can be rejected with. -/
def RejectStatus (status : DecodeStatus) : Prop :=
  status = .payloadTooLarge ∨ status = .unsupportedVersion ∨ status = .unsupportedMessageType ∨
    status = .crcMismatch

/-- `decode` on a candidate as long as it claims to be: the sync pair and the length are right already. -/
lemma decode_candidate {c : List UInt8} (hs : Synced c) (hl : claimedLength c ≤ maximumPayloadSize)
    (hc : c.length = minimumFrameSize + claimedLength c) :
    (decode c).ok ∨ RejectStatus (decode c).status := by
  have h12 : 12 ≤ c.length := by
    rw [hc]
    exact Nat.le_add_right _ _
  obtain ⟨b0, b1, b2, t, l0, l1, s0, s1, s2, s3, rest, e⟩ := split_header h12
  subst e
  obtain ⟨e0, e1⟩ := synced_cons.mp hs
  subst e0; subst e1
  change (word16 l0 l1).toNat ≤ maximumPayloadSize at hl
  change _ = minimumFrameSize + (word16 l0 l1).toNat at hc
  unfold decode
  rw [dif_neg (Nat.not_lt.mpr h12)]
  dsimp only
  rw [if_neg (by simp)]
  split
  · exact .inr (.inr (.inl rfl))
  split
  · exact .inr (.inr (.inr (.inl rfl)))
  split
  case isTrue h => exact absurd hl (Nat.not_le.mpr h)
  split
  case isTrue h => exact absurd hc (Nat.ne_of_lt h)
  split
  case isTrue h => exact absurd hc h
  split
  · exact .inr (.inr (.inr (.inr rfl)))
  · exact .inl rfl

/-- The rejected candidate is complete, or its header claims too much. -/
lemma rejectStatus_of_skip {r : List UInt8} (hs : Synced r) (hv : frameVerdict r = .skip) :
    RejectStatus (rejectStatus r) := by
  rw [rejectStatus]
  split
  case isTrue => exact .inl rfl
  case isFalse hl =>
    have hl := Nat.le_of_not_lt hl
    by_cases hp : r.length < minimumFrameSize + claimedLength r
    case pos => cases (frameVerdict_pending hs hl hp).symm.trans hv
    have hp := Nat.le_of_not_lt hp
    obtain ⟨hst, hcl, hlen⟩ := hs.candidate hp
    rw [frameVerdict_complete hs hl hp] at hv
    obtain hok | hst := decode_candidate hst (by rwa [hcl]) (by rw [hcl, hlen])
    · rw [if_pos hok] at hv
      cases hv
    · exact hst

/-- What a report says about a rejected candidate. -/
def Report.Justified : Report → Prop
  | .frameRejected _ status _ => RejectStatus status
  | _ => True

lemma alignReports_justified (r : List UInt8) : ∀ rep ∈ alignReports r, rep.Justified := by
  rw [alignReports]
  split
  · simp
  · exact List.forall_mem_singleton.mpr trivial

lemma Drives.justified {r reps rest} (h : Drives r reps rest) : ∀ rep ∈ reps, rep.Justified := by
  induction h with
  | wait _ => simp
  | reject hs hv _ ih => exact List.forall_mem_cons.mpr ⟨rejectStatus_of_skip hs hv, ih⟩
  | deliver _ _ ih =>
    exact List.forall_mem_cons.mpr
      ⟨trivial, List.forall_mem_append.mpr ⟨alignReports_justified _, ih⟩⟩

lemma Feeds.justified {r b reps rest} (h : Feeds r b reps rest) : ∀ rep ∈ reps, rep.Justified := by
  cases h with
  | start => simp
  | idle _ => exact List.forall_mem_singleton.mpr trivial
  | sync => simp
  | slide => exact List.forall_mem_singleton.mpr trivial
  | drop _ _ => exact List.forall_mem_singleton.mpr trivial
  | drive _ hd => exact hd.justified

/-! ## Runs -/

/-- What a call of the handler satisfies: the frame fits its array, and a rejection has one of the four
statuses. -/
def SoundCall (call : HandlerCall) : Prop :=
  FitsFrame call ∧ (call.event.status = .frameRejected → RejectStatus call.event.decodeStatus)

lemma SoundCall.of_report {call : HandlerCall} (hf : FitsFrame call) (hr : call.report.Justified) :
    SoundCall call := by
  refine ⟨hf, fun hs => ?_⟩
  rwa [HandlerCall.report, hs] at hr

/-- A decoder that is ready is well formed. -/
lemma Ready.wellFormed {d : FrameStreamDecoder} {r : List UInt8} (h : Ready d r) : d.WellFormed := by
  have hsize := h.size
  have hlt := length_of_wait h.waits
  obtain e | e | ⟨hs, -⟩ := frameVerdict_wait_inv h.waits
  · subst e
    rw [List.length_nil] at hsize
    refine ⟨by omega, by omega, by omega, fun h6 => ?_⟩
    change 6 ≤ _ at h6
    omega
  · subst e
    rw [List.length_singleton] at hsize
    refine ⟨by omega, fun _ => h.read (by simp), by omega, fun h6 => ?_⟩
    change 6 ≤ _ at h6
    omega
  obtain ⟨s, e⟩ := hs.eq
  refine ⟨by change _ < 76 at hlt; omega, ?_, ?_, ?_⟩
  · intro _
    subst e
    exact h.read (by simp)
  · intro _
    subst e
    exact h.read (by simp)
  · intro h6
    rw [hsize] at h6
    obtain ⟨-, hheader⟩ := frameVerdict_wait_header h.waits h6
    change 6 ≤ _ at h6
    have h4 : 4 < r.length := by omega
    have h5 : 5 < r.length := by omega
    refine ⟨r[4], r[5], h.read h4, h.read h5, ?_⟩
    have hcl : (word16 r[4] r[5]).toNat = claimedLength r := by
      rw [claimedLength, List.getD_eq_getElem _ _ h4, List.getD_eq_getElem _ _ h5]
    rw [hcl, hsize]
    exact hheader

/-- A byte keeps the decoder ready, and its calls are sound. -/
lemma pushByte_safe {d : FrameStreamDecoder} (h : ∃ r, Ready d r) (byte : UInt8) :
    ∃ d' calls, d.pushByte byte = some (d', calls) ∧ (∃ r, Ready d' r) ∧ ∀ c ∈ calls, SoundCall c := by
  obtain ⟨r, h⟩ := h
  obtain ⟨d', calls, r', hpush, hh, hfeeds⟩ := pushByte_feeds h.toHolds h.waits byte
  obtain ⟨ts, hscan, -⟩ := hfeeds.scans h.waits
  have hj := hfeeds.justified
  rw [List.forall_mem_map] at hj
  exact ⟨d', calls, hpush, ⟨r', hh, hscan.rest_wait⟩,
    fun c hc => .of_report (pushByte_fits hpush c hc) (hj c hc)⟩

/-- So does `finish`. -/
lemma finish_safe {d : FrameStreamDecoder} (h : ∃ r, Ready d r) :
    ∃ d' calls, d.finish = some (d', calls) ∧ (∃ r, Ready d' r) ∧ ∀ c ∈ calls, SoundCall c := by
  obtain ⟨r, h⟩ := h
  obtain ⟨d', calls, hfinish, -, hreps⟩ := finish_drops h.toHolds
  refine ⟨d', calls, hfinish, ⟨[], .empty (size_finish hfinish)⟩, fun c hc => ?_⟩
  have hj : ∀ rep ∈ calls.map HandlerCall.report, rep.Justified := by
    rw [hreps]
    split
    · simp
    · exact List.forall_mem_singleton.mpr trivial
  rw [List.forall_mem_map] at hj
  exact .of_report (finish_fits hfinish c hc) (hj c hc)

/-- A call keeps the decoder ready, and its calls are sound. -/
lemma perform_safe (d : FrameStreamDecoder) (call : StreamCall) (h : ∃ r, Ready d r) :
    ∃ d' calls, d.perform call = some (d', calls) ∧ (∃ r, Ready d' r) ∧ ∀ c ∈ calls, SoundCall c := by
  cases call with
  | push bytes => exact run_safe (fun d byte h => pushByte_safe h byte) h bytes
  | finish => exact finish_safe h

/-- Within a call, `size_` is never more than the capacity. -/
lemma perform_sizes {d d' : FrameStreamDecoder} {call : StreamCall} {calls}
    (h : d.perform call = some (d', calls)) :
    ∃ sizes, d.performSizes call = some (d', sizes) ∧ ∀ n ∈ sizes, n ≤ maximumFrameSize := by
  cases call with
  | push bytes =>
    refine run_beside (fun {d byte d' calls} hpush => ?_) h
    obtain ⟨sizes, hsizes, ha⟩ := pushByte_sizes hpush
    exact ⟨sizes, by simp [FrameStreamDecoder.stepSizes, hpush, hsizes], ha.le⟩
  | finish =>
    have hfinish : d.finish = some (d', calls) := h
    refine ⟨_, by rw [FrameStreamDecoder.performSizes, hfinish]; rfl, ?_⟩
    rw [size_finish hfinish]
    split <;> simp

/-- The representation invariant and the bounds. Whatever is pushed, no access leaves an array and no
loop goes on forever; between calls the decoder is well formed; within a call `size_` is at most the
capacity; and every event has a frame that fits its array and, if it is a rejection, one of four
statuses. -/
theorem session_bounded (session : List StreamCall) :
    ∃ d events sizes, run FrameStreamDecoder.perform {} session = some (d, events) ∧
      run FrameStreamDecoder.performSizes {} session = some (d, sizes) ∧ d.WellFormed ∧
      (∀ n ∈ sizes, n ≤ maximumFrameSize) ∧ ∀ c ∈ events, SoundCall c := by
  obtain ⟨d, events, hrun, ⟨r, hr⟩, hsound⟩ :=
    run_safe (Q := SoundCall) perform_safe ⟨[], .empty (d := {}) rfl⟩ session
  obtain ⟨sizes, hsizes, hle⟩ := run_beside perform_sizes hrun
  exact ⟨d, events, sizes, hrun, hsizes, hr.wellFormed, hle, hsound⟩

end ApogeeFC.Stream
