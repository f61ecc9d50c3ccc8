import ApogeeFC.Ground.Grammar

/-!
# What the ground shows

What the processor shows of an event does not depend on what it has shown before: it adds something to
both texts, the count and the flag (`handleEvent_eq`). So of a stream only its bytes matter, and not how
they are cut into chunks, for everything it writes, complaints included (`foldlM_feed`).

On a stream that is not clean the processor still writes nothing of its own to the output. The output is
the transcript of the messages among the frames of the reference scan (`shows_only_messages`).
-/

namespace ApogeeFC.Ground
open Codec Mealy Scan ApogeeFC.Stream

/-- Something to be shown. -/
structure Shown where
  output : String := ""
  errors : String := ""
  decodedMessages : Nat := 0
  malformedInput : Bool := false
  deriving DecidableEq, Repr

namespace GroundStreamProcessor

/-- What the processor has shown. -/
def shown (processor : GroundStreamProcessor) : Shown where
  output := processor.output
  errors := processor.errors
  decodedMessages := processor.decodedMessages
  malformedInput := processor.malformedInput

/-- The processor after it has shown something more. -/
def add (processor : GroundStreamProcessor) (more : Shown) : GroundStreamProcessor where
  decoder := processor.decoder
  output := processor.output ++ more.output
  errors := processor.errors ++ more.errors
  decodedMessages := processor.decodedMessages + more.decodedMessages
  malformedInput := processor.malformedInput || more.malformedInput

section Add
variable (processor : GroundStreamProcessor) (more : Shown)

@[simp] lemma decoder_add : (processor.add more).decoder = processor.decoder := rfl

@[simp] lemma output_add : (processor.add more).output = processor.output ++ more.output := rfl

@[simp] lemma decodedMessages_add :
    (processor.add more).decodedMessages = processor.decodedMessages + more.decodedMessages := rfl

@[simp] lemma malformedInput_add :
    (processor.add more).malformedInput = (processor.malformedInput || more.malformedInput) := rfl

@[simp] lemma add_nothing : processor.add {} = processor := by simp [add]

end Add

end GroundStreamProcessor

/-- What an event adds. -/
def shownOf (event : FrameStreamEvent) : Shown :=
  (({} : GroundStreamProcessor).handleEvent event).shown

/-- What calls of the handler add. -/
def shownBy (calls : List HandlerCall) : Shown :=
  (({} : GroundStreamProcessor).handleCalls calls).shown

lemma complain_eq (processor : GroundStreamProcessor) (text : String) :
    processor.complain text = processor.add (({} : GroundStreamProcessor).complain text).shown := by
  simp [GroundStreamProcessor.complain, GroundStreamProcessor.add, GroundStreamProcessor.shown]

lemma handleEvent_eq (processor : GroundStreamProcessor) (event : FrameStreamEvent) :
    processor.handleEvent event = processor.add (shownOf event) := by
  rw [shownOf, GroundStreamProcessor.handleEvent, GroundStreamProcessor.handleEvent]
  split
  · exact complain_eq processor _
  dsimp only
  split
  · exact complain_eq processor _
  split
  · rw [GroundStreamProcessor.printTelemetry, GroundStreamProcessor.printTelemetry]
    dsimp only
    split
    · exact complain_eq processor _
    · simp [GroundStreamProcessor.add, GroundStreamProcessor.shown]
  · rw [GroundStreamProcessor.printAcknowledgement, GroundStreamProcessor.printAcknowledgement]
    dsimp only
    split
    · exact complain_eq processor _
    · simp [GroundStreamProcessor.add, GroundStreamProcessor.shown]
  · exact complain_eq processor _
  · exact (GroundStreamProcessor.add_nothing processor).symm

/-- The calls add the sum of what each of them adds. -/
lemma handleCalls_eq (processor : GroundStreamProcessor) (calls : List HandlerCall) :
    processor.handleCalls calls = processor.add (shownBy calls) := by
  induction calls generalizing processor with
  | nil => exact (GroundStreamProcessor.add_nothing processor).symm
  | cons call calls ih =>
    have hstep : ∀ processor : GroundStreamProcessor, processor.handleCalls (call :: calls) =
        (processor.add (shownOf call.event)).add (shownBy calls) := by
      intro processor
      rw [← handleEvent_eq]
      exact ih (processor.handleEvent call.event)
    rw [shownBy, hstep, hstep]
    simp [GroundStreamProcessor.add, GroundStreamProcessor.shown, String.append_assoc, Nat.add_assoc,
      Bool.or_assoc]

/-- Feeding bytes is pushing them, and adding what the calls of the handler show. -/
lemma feed_eq (processor : GroundStreamProcessor) (bytes : List UInt8) :
    processor.feed bytes = (processor.decoder.push bytes).map fun pushed =>
      { processor with decoder := pushed.1 }.add (shownBy pushed.2) := by
  rw [GroundStreamProcessor.feed]
  cases processor.decoder.push bytes with
  | none => rfl
  | some pushed => exact congrArg some (handleCalls_eq _ pushed.2)

lemma finish_eq (processor : GroundStreamProcessor) :
    processor.finish = processor.decoder.finish.map fun finished =>
      { processor with decoder := finished.1 }.add (shownBy finished.2) := by
  rw [GroundStreamProcessor.finish]
  cases processor.decoder.finish with
  | none => rfl
  | some finished => exact congrArg some (handleCalls_eq _ finished.2)

lemma feed_nil (processor : GroundStreamProcessor) : processor.feed [] = some processor := rfl

/-- Feeding two chunks is feeding the bytes of both. -/
lemma feed_append (processor : GroundStreamProcessor) (bytes more : List UInt8) :
    processor.feed (bytes ++ more) = (processor.feed bytes).bind fun p => p.feed more := by
  rw [feed_eq, feed_eq, FrameStreamDecoder.push, FrameStreamDecoder.push, run_append_eq]
  cases run FrameStreamDecoder.pushByte processor.decoder bytes with
  | none => rfl
  | some pushed =>
    obtain ⟨decoder, calls⟩ := pushed
    simp only [Option.bind_some, Option.map_some]
    rw [feed_eq, GroundStreamProcessor.decoder_add, FrameStreamDecoder.push]
    cases run FrameStreamDecoder.pushByte decoder more with
    | none => rfl
    | some pushed =>
      obtain ⟨decoder', calls'⟩ := pushed
      have happend : ∀ p : GroundStreamProcessor,
          p.add (shownBy (calls ++ calls')) = (p.add (shownBy calls)).add (shownBy calls') := by
        intro p
        rw [← handleCalls_eq, ← handleCalls_eq, ← handleCalls_eq]
        exact List.foldl_append
      simp only [Option.map_some, happend]
      rfl

/-- Only the bytes matter. -/
lemma foldlM_feed (processor : GroundStreamProcessor) (chunks : List (List UInt8)) :
    chunks.foldlM GroundStreamProcessor.feed processor = processor.feed chunks.flatten := by
  induction chunks generalizing processor with
  | nil => exact (feed_nil processor).symm
  | cons chunk chunks ih =>
    rw [List.foldlM_cons, List.flatten_cons, feed_append]
    exact congrArg _ (funext ih)

/-- A session is what the calls for all its bytes show, and then the end of the stream. -/
lemma session_eq {chunks : List (List UInt8)} {decoder : FrameStreamDecoder} {calls}
    (h : FrameStreamDecoder.push {} chunks.flatten = some (decoder, calls)) :
    GroundStreamProcessor.session {} chunks =
      (GroundStreamProcessor.add { decoder } (shownBy calls)).finish := by
  rw [GroundStreamProcessor.session, foldlM_feed, feed_eq, h]
  rfl

/-! ## Streams that are not clean -/

/-- The message that the ground takes a frame for. -/
def message? (frame : List UInt8) : Option GroundMessage :=
  match (decode frame).frame.messageType with
  | .telemetry =>
    if (decodeTelemetry frame).ok then some (.telemetry (decodeTelemetry frame).message) else none
  | .commandAck =>
    if (decodeCommandAck frame).ok then some (.acknowledgement (decodeCommandAck frame).message)
    else none
  | _ => none

/-- A frame is only taken for a message that encodes to it. -/
lemma message?_inv {frame : List UInt8} {message : GroundMessage} (h : message? frame = some message) :
    message.Encodes ∧ message.bytes = frame := by
  unfold message? at h
  split at h
  case h_1 htype =>
    split at h
    case isTrue hdec =>
      cases h
      exact encodeTelemetry_decode hdec htype
    case isFalse => cases h
  case h_2 =>
    split at h
    case isTrue hdec =>
      cases h
      exact encodeCommandAck_decode hdec
    case isFalse => cases h
  case h_3 => cases h

/-- What is shown of a frame is the message it is taken for. -/
lemma shownOf_frame {event : FrameStreamEvent} (hs : event.status = .frameDecoded)
    (hok : (decode event.frame.view).ok) :
    (shownOf event).output = transcript (message? event.frame.view).toList ∧
      (shownOf event).decodedMessages = (message? event.frame.view).toList.length := by
  rw [shownOf, GroundStreamProcessor.handleEvent, if_neg (not_not.mpr hs)]
  dsimp only
  rw [if_neg (not_not.mpr hok), message?]
  cases (decode event.frame.view).frame.messageType with
  | telemetry =>
    dsimp only
    rw [GroundStreamProcessor.printTelemetry]
    by_cases hdec : (decodeTelemetry event.frame.view).ok
    case pos =>
      rw [if_neg (not_not.mpr hdec), if_pos hdec]
      exact ⟨by simp [GroundStreamProcessor.shown, transcript, GroundMessage.line], rfl⟩
    case neg =>
      rw [if_pos hdec, if_neg hdec]
      exact ⟨rfl, rfl⟩
  | commandAck =>
    dsimp only
    rw [GroundStreamProcessor.printAcknowledgement]
    by_cases hdec : (decodeCommandAck event.frame.view).ok
    case pos =>
      rw [if_neg (not_not.mpr hdec), if_pos hdec]
      exact ⟨by simp [GroundStreamProcessor.shown, transcript, GroundMessage.line], rfl⟩
    case neg =>
      rw [if_pos hdec, if_neg hdec]
      exact ⟨rfl, rfl⟩
  | command => exact ⟨rfl, rfl⟩
  | unnamed => exact ⟨rfl, rfl⟩

/-- Of the other events nothing is shown on the output. -/
lemma shownOf_error {event : FrameStreamEvent} (hs : event.status ≠ .frameDecoded) :
    (shownOf event).output = "" ∧ (shownOf event).decodedMessages = 0 := by
  rw [shownOf, GroundStreamProcessor.handleEvent, if_pos hs]
  exact ⟨rfl, rfl⟩

/-- What calls show on the output are the messages among their frames. -/
lemma shownBy_calls {calls : List HandlerCall} (h : ∀ f ∈ decodedFrames calls, (decode f).ok) :
    (shownBy calls).output = transcript ((decodedFrames calls).filterMap message?) ∧
      (shownBy calls).decodedMessages = ((decodedFrames calls).filterMap message?).length := by
  induction calls with
  | nil => exact ⟨rfl, rfl⟩
  | cons call calls ih =>
    have hstep : shownBy (call :: calls) =
        ((({} : GroundStreamProcessor).add (shownOf call.event)).add (shownBy calls)).shown := by
      rw [← handleEvent_eq, ← handleCalls_eq]
      rfl
    by_cases hs : call.event.status = .frameDecoded
    case neg =>
      rw [decodedFrames_skip hs] at h ⊢
      obtain ⟨e1, e2⟩ := shownOf_error hs
      obtain ⟨e3, e4⟩ := ih h
      rw [hstep, ← e3, ← e4]
      simp [GroundStreamProcessor.shown, e1, e2]
    rw [decodedFrames_cons hs] at h ⊢
    obtain ⟨hok, h⟩ := List.forall_mem_cons.mp h
    obtain ⟨e1, e2⟩ := shownOf_frame hs hok
    obtain ⟨e3, e4⟩ := ih h
    rw [hstep, List.filterMap_cons]
    simp only [GroundStreamProcessor.shown, GroundStreamProcessor.output_add,
      GroundStreamProcessor.decodedMessages_add, e1, e2, e3, e4]
    cases message? call.event.frame.view with
    | none => simp [transcript]
    | some message => simp [transcript, Nat.add_comm]

/-- The end of the stream is not shown on the output. -/
lemma finish_shows {processor processor' : GroundStreamProcessor}
    (h : processor.finish = some processor') :
    processor'.output = processor.output ∧
      processor'.decodedMessages = processor.decodedMessages := by
  rw [finish_eq] at h
  obtain ⟨⟨decoder, calls⟩, hfin, e⟩ := Option.map_eq_some_iff.mp h
  subst e
  have hnone : (shownBy calls).output = "" ∧ (shownBy calls).decodedMessages = 0 := by
    rw [FrameStreamDecoder.finish] at hfin
    split at hfin
    · cases hfin
      exact ⟨rfl, rfl⟩
    · obtain ⟨frame, -, hfin⟩ := Option.bind_eq_some_iff.mp hfin
      cases hfin
      have hs : FrameStreamStatus.truncated ≠ .frameDecoded := by
        intro e
        cases e
      exact @shownOf_error { status := .truncated, decodeStatus := .truncated, frame } hs
  simp [hnone]

/-- The ground makes nothing up. Whatever it receives, in whatever chunks, the output is the transcript
of messages that are in the stream byte for byte, each once and in order, and these are all that the
reference scan finds. -/
theorem shows_only_messages (chunks : List (List UInt8)) :
    ∃ processor messages, GroundStreamProcessor.session {} chunks = some processor ∧
      messages = (frames (frameScanner.scan chunks.flatten).1).filterMap message? ∧
      processor.output = transcript messages ∧ processor.decodedMessages = messages.length ∧
      (∀ m ∈ messages, m.Encodes) ∧
      Embedded frameScanner (messages.map GroundMessage.bytes) chunks.flatten := by
  obtain ⟨d', calls, ts, r, hpush, hready, hscan, hdec, -⟩ :=
    FrameStreamDecoder.push_scans (d := {}) (.empty rfl) chunks.flatten
  rw [List.nil_append] at hscan
  have hacc := hscan.accepts
  obtain ⟨d'', calls', hfin, -⟩ := finish_drops hready.toHolds
  have hsession := session_eq hpush
  have hfinish := finish_eq (GroundStreamProcessor.add { decoder := d' } (shownBy calls))
  rw [GroundStreamProcessor.decoder_add, hfin, Option.map_some] at hfinish
  obtain ⟨ho, hd⟩ := finish_shows hfinish
  obtain ⟨eo, ed⟩ := shownBy_calls fun f hf => accepts_iff.mp (hacc f (hdec ▸ hf))
  refine ⟨_, _, hsession.trans hfinish, rfl, ?_, ?_, ?_, ?_⟩
  · rw [ho, hscan.scan_eq, ← hdec, ← eo]
    simp
  · rw [hd, hscan.scan_eq, ← hdec, ← ed]
    simp
  · intro m hm
    obtain ⟨f, -, e⟩ := List.mem_filterMap.mp hm
    exact (message?_inv e).1
  · -- the messages are some of the frames
    rw [hscan.scan_eq, ← hscan.spell]
    refine (Embedded.of_tokens hacc r).sublist ?_
    generalize frames ts = fs
    induction fs with
    | nil => exact .slnil
    | cons f fs ih =>
      cases hm : message? f with
      | none =>
        rw [List.filterMap_cons_none hm]
        exact ih.cons f
      | some m =>
        rw [List.filterMap_cons_some hm, List.map_cons, (message?_inv hm).2]
        exact ih.cons_cons f

end ApogeeFC.Ground
