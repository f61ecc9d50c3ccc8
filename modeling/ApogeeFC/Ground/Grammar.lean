import ApogeeFC.Codec.CommandWire
import ApogeeFC.Codec.TelemetryWire
import ApogeeFC.Ground.Processor
import ApogeeFC.Stream.Push

/-!
# The grammar of the downlink

The ground expects telemetry and acknowledgements, one frame after the other and nothing between them.
`accepts_grammar` says that it accepts exactly these streams: it complains about every other stream,
and of an accepted one it prints every message once and in order.

The pending bytes of its decoder and the tokens the reference scan has found so far are tied to what
it has printed by `Tracks`. One `feed` keeps it (`Tracks.feed`), whatever the chunk.
-/

namespace ApogeeFC.Ground
open Codec Detail Scan ApogeeFC.Stream

/-- What the ground expects to receive. -/
inductive GroundMessage where
  | telemetry (message : TelemetryMessage)
  | acknowledgement (message : CommandAckMessage)
  deriving DecidableEq, Repr

namespace GroundMessage

/-- Encoding succeeds. -/
def Encodes : GroundMessage → Prop
  | telemetry message => (encodeTelemetry message).ok
  | acknowledgement message => (encodeCommandAck message).ok

/-- The bytes that the encoder puts out. -/
def bytes : GroundMessage → List UInt8
  | telemetry message => (encodeTelemetry message).frame.view
  | acknowledgement message => (encodeCommandAck message).frame.view

/-- The line that the ground prints. -/
def line : GroundMessage → String
  | telemetry message => telemetryLine message
  | acknowledgement message => acknowledgementLine message

end GroundMessage

/-- What is printed for messages that come one after the other. -/
def transcript (messages : List GroundMessage) : String :=
  String.join (messages.map GroundMessage.line)

@[simp] lemma transcript_append (messages more : List GroundMessage) :
    transcript (messages ++ more) = transcript messages ++ transcript more := by
  simp [transcript]

/-- The frame of a message is intact and has the type of the message. -/
lemma GroundMessage.Encodes.decode {message : GroundMessage} (h : message.Encodes) :
    ∃ frame, Codec.decode message.bytes = { frame } ∧
      match message with
      | telemetry message => frame.messageType = .telemetry ∧
          decodeTelemetry (encodeTelemetry message).frame.view = { message }
      | acknowledgement message => frame.messageType = .commandAck ∧
          decodeCommandAck (encodeCommandAck message).frame.view = { message } := by
  cases message with
  | telemetry message =>
    have hvalid := valid_of_encodeTelemetry h
    obtain ⟨frame, hd, ht⟩ := decode_encodeTelemetry hvalid
    exact ⟨frame, hd, ht, (decodeTelemetry_encode hvalid).2⟩
  | acknowledgement message =>
    obtain ⟨hc, hs⟩ := named_of_encodeCommandAck h
    obtain ⟨frame, hd, ht⟩ := decode_encodeCommandAck hc hs
    exact ⟨frame, hd, ht, (decodeCommandAck_encode hc hs).2⟩

/-- The reference scan takes the frame of a message. -/
lemma GroundMessage.Encodes.accepts {message : GroundMessage} (h : message.Encodes) :
    frameScanner.Accepts message.bytes := by
  obtain ⟨frame, hd, -⟩ := h.decode
  exact accepts_iff.mpr (by rw [hd]; rfl)

/-- The frame of a message is shown as that message. -/
lemma handleEvent_message {processor : GroundStreamProcessor} {event : FrameStreamEvent}
    {message : GroundMessage} (hm : message.Encodes) (hs : event.status = .frameDecoded)
    (hv : event.frame.view = message.bytes) :
    processor.handleEvent event =
      { processor with
        output := processor.output ++ message.line
        decodedMessages := processor.decodedMessages + 1 } := by
  obtain ⟨frame, hd, ht⟩ := hm.decode
  rw [GroundStreamProcessor.handleEvent, if_neg (not_not.mpr hs), hv]
  simp only [hd, ok_decodeResult, not_true_eq_false, if_false]
  cases message with
  | telemetry message =>
    obtain ⟨ht, hdec⟩ := ht
    rw [ht]
    simp [GroundStreamProcessor.printTelemetry, GroundMessage.bytes, GroundMessage.line, hdec,
      TelemetryDecodeResult.ok]
  | acknowledgement message =>
    obtain ⟨ht, hdec⟩ := ht
    rw [ht]
    simp [GroundStreamProcessor.printAcknowledgement, GroundMessage.bytes, GroundMessage.line, hdec,
      CommandAckDecodeResult.ok]

/-- The flag is set, and never cleared, by every event that is not the frame of a message. -/
lemma handleEvent_wellFormed {processor : GroundStreamProcessor} {event : FrameStreamEvent}
    (h : (processor.handleEvent event).malformedInput = false) :
    processor.malformedInput = false ∧ event.status = .frameDecoded ∧
      ∃ message : GroundMessage, message.Encodes ∧ event.frame.view = message.bytes := by
  rw [GroundStreamProcessor.handleEvent] at h
  by_cases hs : event.status = .frameDecoded
  case neg =>
    rw [if_pos hs] at h
    cases h
  rw [if_neg (not_not.mpr hs)] at h
  by_cases hok : (Codec.decode event.frame.view).ok
  case neg =>
    simp [hok, GroundStreamProcessor.complain] at h
  obtain ⟨t, type, seq, p, hp, ht, -, hd⟩ := decode_view hok
  simp only [hd, ok_decodeResult, not_true_eq_false, if_false] at h
  cases type with
  | telemetry =>
    by_cases hdec : (decodeTelemetry event.frame.view).ok
    case neg =>
      simp [GroundStreamProcessor.printTelemetry, hdec, GroundStreamProcessor.complain] at h
    obtain ⟨henc, hview⟩ := encodeTelemetry_decode hdec (by rw [hd]; rfl)
    refine ⟨?_, hs, .telemetry _, henc, hview.symm⟩
    simpa [GroundStreamProcessor.printTelemetry, hdec] using h
  | commandAck =>
    by_cases hdec : (decodeCommandAck event.frame.view).ok
    case neg =>
      simp [GroundStreamProcessor.printAcknowledgement, hdec, GroundStreamProcessor.complain] at h
    obtain ⟨henc, hview⟩ := encodeCommandAck_decode hdec
    refine ⟨?_, hs, .acknowledgement _, henc, hview.symm⟩
    simpa [GroundStreamProcessor.printAcknowledgement, hdec] using h
  | command => cases h
  | unnamed => cases ht

/-- The handler does not touch the decoder. -/
lemma decoder_handleEvent (processor : GroundStreamProcessor) (event : FrameStreamEvent) :
    (processor.handleEvent event).decoder = processor.decoder := by
  have ht : ∀ b, (processor.printTelemetry b).decoder = processor.decoder := by
    intro b
    unfold GroundStreamProcessor.printTelemetry
    dsimp only
    split
    · rfl
    · rfl
  have ha : ∀ b, (processor.printAcknowledgement b).decoder = processor.decoder := by
    intro b
    unfold GroundStreamProcessor.printAcknowledgement
    dsimp only
    split
    · rfl
    · rfl
  unfold GroundStreamProcessor.handleEvent
  split
  · rfl
  · dsimp only
    split
    · rfl
    · split
      · exact ht _
      · exact ha _
      · rfl
      · rfl

lemma decoder_handleCalls (processor : GroundStreamProcessor) (calls : List HandlerCall) :
    (processor.handleCalls calls).decoder = processor.decoder := by
  induction calls generalizing processor with
  | nil => rfl
  | cons call calls ih => exact (ih _).trans (decoder_handleEvent processor call.event)

/-- The processor has received these messages and nothing else. -/
structure Received (processor : GroundStreamProcessor) (messages : List GroundMessage) : Prop where
  wellFormed : processor.malformedInput = false
  decoded : processor.decodedMessages = messages.length
  output : processor.output = transcript messages
  errors : processor.errors = ""

/-- What was received does not depend on the decoder. -/
lemma Received.withDecoder {processor : GroundStreamProcessor} {messages : List GroundMessage}
    (h : Received processor messages) (decoder : FrameStreamDecoder) :
    Received { processor with decoder } messages :=
  ⟨h.wellFormed, h.decoded, h.output, h.errors⟩

/-- Receiving one more message. -/
lemma Received.handleEvent {processor : GroundStreamProcessor} {messages : List GroundMessage}
    {message : GroundMessage} {event : FrameStreamEvent} (h : Received processor messages)
    (hm : message.Encodes) (hs : event.status = .frameDecoded)
    (hv : event.frame.view = message.bytes) :
    Received (processor.handleEvent event) (messages ++ [message]) := by
  rw [handleEvent_message hm hs hv]
  constructor
  · exact h.wellFormed
  · simp [h.decoded]
  · rw [transcript_append, ← h.output]
    simp [transcript]
  · exact h.errors

/-- Calls that deliver the frames of messages, and nothing else, are shown as these messages. -/
lemma Received.handleCalls {processor : GroundStreamProcessor} {messages more : List GroundMessage}
    {calls : List HandlerCall} (h : Received processor messages) (hm : ∀ m ∈ more, m.Encodes)
    (hq : Quiet (calls.map HandlerCall.report))
    (hf : decodedFrames calls = more.map GroundMessage.bytes) :
    Received (processor.handleCalls calls) (messages ++ more) := by
  induction calls generalizing processor messages more with
  | nil =>
    cases more with
    | nil => rwa [List.append_nil]
    | cons m more => cases hf
  | cons call calls ih =>
    obtain ⟨hs, hq⟩ := quiet_calls.mp hq
    rw [decodedFrames_cons hs] at hf
    cases more with
    | nil => cases hf
    | cons m more =>
      obtain ⟨hv, hf⟩ := List.cons.inj hf
      rw [List.append_cons]
      exact ih (h.handleEvent (hm m (by simp)) hs hv) (fun m hm' => hm m (by simp [hm'])) hq hf

/-- A processor that does not complain was called with the frames of messages, and nothing else. -/
lemma handleCalls_wellFormed {processor : GroundStreamProcessor} {calls : List HandlerCall}
    (h : (processor.handleCalls calls).malformedInput = false) :
    processor.malformedInput = false ∧ Quiet (calls.map HandlerCall.report) ∧
      ∃ messages : List GroundMessage, (∀ m ∈ messages, m.Encodes) ∧
        decodedFrames calls = messages.map GroundMessage.bytes := by
  induction calls generalizing processor with
  | nil => exact ⟨h, quiet_nil, [], by simp, rfl⟩
  | cons call calls ih =>
    obtain ⟨h1, hq, messages, hm, hf⟩ := @ih (processor.handleEvent call.event) h
    obtain ⟨hp, hs, m, hm1, hv⟩ := handleEvent_wellFormed h1
    refine ⟨hp, quiet_calls.mpr ⟨hs, hq⟩, m :: messages, ?_, ?_⟩
    · intro m' hm'
      obtain e | hm' := List.mem_cons.mp hm'
      · exact e ▸ hm1
      · exact hm m' hm'
    · rw [decodedFrames_cons hs, hf, hv, List.map_cons]

/-- The tokens of messages that follow each other. -/
def tokens (messages : List GroundMessage) : List (Token UInt8) :=
  (messages.map GroundMessage.bytes).map .frame

@[simp] lemma tokens_append (messages more : List GroundMessage) :
    tokens (messages ++ more) = tokens messages ++ tokens more := by
  simp [tokens]

lemma clean_tokens (messages : List GroundMessage) : Clean (tokens messages) := clean_map_frame _

lemma frames_tokens (messages : List GroundMessage) :
    frames (tokens messages) = messages.map GroundMessage.bytes := frames_map_frame _

lemma spell_tokens (messages : List GroundMessage) :
    spell (tokens messages) = messages.flatMap GroundMessage.bytes := by
  rw [tokens, spell_map_frame, List.flatMap]

/-- The decoder waits at `r` after the tokens `ts`, and the processor has received the messages that
these are, or has complained. -/
structure Tracks (processor : GroundStreamProcessor) (r : List UInt8) (ts : List (Token UInt8)) :
    Prop where
  ready : Ready processor.decoder r
  grammar : processor.malformedInput = false →
    ∃ messages : List GroundMessage, (∀ m ∈ messages, m.Encodes) ∧ ts = tokens messages
  received : ∀ messages : List GroundMessage, (∀ m ∈ messages, m.Encodes) → ts = tokens messages →
    Received processor messages

/-- Feeding bytes goes on with the tokens of the reference scan. -/
lemma Tracks.feed {processor : GroundStreamProcessor} {r : List UInt8} {ts}
    (h : Tracks processor r ts) (bytes : List UInt8) :
    ∃ processor' ts' r', processor.feed bytes = some processor' ∧
      Scans frameScanner (r ++ bytes) ts' r' ∧ Tracks processor' r' (ts ++ ts') := by
  obtain ⟨d', calls, ts', r', hpush, hready, hscan, hdec, hquiet⟩ :=
    FrameStreamDecoder.push_scans h.ready bytes
  refine ⟨_, ts', r', by rw [GroundStreamProcessor.feed, hpush]; rfl, hscan, ?_⟩
  constructor
  · rwa [decoder_handleCalls]
  · intro hwf
    obtain ⟨hp, hq, more, hm, hf⟩ := handleCalls_wellFormed hwf
    obtain ⟨messages, hm0, e⟩ := h.grammar hp
    have hclean := hquiet.mp hq
    refine ⟨messages ++ more, ?_, ?_⟩
    · intro m hm'
      exact (List.mem_append.mp hm').elim (hm0 m) (hm m)
    · rw [e, hclean.eq_frames, ← hdec, hf, tokens_append]
      rfl
  · intro messages hm e
    obtain ⟨bs, cs, e1, e2, e3⟩ := List.map_eq_append_iff.mp e.symm
    obtain ⟨before, more, e4, e5, e6⟩ := List.map_eq_append_iff.mp e1
    subst e4; subst e5; subst e6
    have hr := h.received before (fun m hb => hm m (by simp [hb])) e2.symm
    have ht : ts' = tokens more := e3.symm
    refine (hr.withDecoder d').handleCalls (fun m hb => hm m (by simp [hb])) (hquiet.mpr ?_) ?_
    · rw [ht]
      exact clean_tokens more
    · rw [hdec, ht, frames_tokens]

/-- Feeding chunks is feeding their concatenation. -/
lemma Tracks.feeds {processor : GroundStreamProcessor} {r : List UInt8} {ts}
    (h : Tracks processor r ts) (chunks : List (List UInt8)) :
    ∃ processor' ts' r', chunks.foldlM GroundStreamProcessor.feed processor = some processor' ∧
      Scans frameScanner (r ++ chunks.flatten) ts' r' ∧ Tracks processor' r' (ts ++ ts') := by
  induction chunks generalizing processor r ts with
  | nil =>
    refine ⟨processor, [], r, rfl, ?_, by rwa [List.append_nil]⟩
    rw [List.flatten_nil, List.append_nil]
    exact .wait h.ready.waits
  | cons chunk chunks ih =>
    obtain ⟨p1, ts1, r1, hfeed1, hscan1, h1⟩ := h.feed chunk
    obtain ⟨p2, ts2, r2, hfeed2, hscan2, h2⟩ := ih h1
    refine ⟨p2, ts1 ++ ts2, r2, ?_, ?_, ?_⟩
    · rw [List.foldlM_cons, hfeed1]
      exact hfeed2
    · have hscan := hscan1.append hscan2
      rwa [List.append_assoc] at hscan
    · rwa [List.append_assoc] at h2

lemma Tracks.fresh : Tracks {} [] [] where
  ready := .empty rfl
  grammar := fun _ => ⟨[], by simp, rfl⟩
  received := by
    intro messages _ e
    have e : messages = [] := by simpa [tokens] using e.symm
    subst e
    exact ⟨rfl, rfl, rfl, rfl⟩

/-- At the end of the stream the processor complains exactly if bytes are left over. -/
lemma Tracks.finish {processor : GroundStreamProcessor} {r : List UInt8} {ts}
    (h : Tracks processor r ts) :
    ∃ processor', processor.finish = some processor' ∧
      (processor'.malformedInput = false ↔ processor.malformedInput = false ∧ r = []) ∧
      ∀ messages, r = [] → Received processor messages → Received processor' messages := by
  obtain ⟨d', calls, hfin, -, hrep⟩ := finish_drops h.ready.toHolds
  refine ⟨_, by rw [GroundStreamProcessor.finish, hfin]; rfl, ?_, ?_⟩
  · constructor
    · intro hwf
      obtain ⟨hp, hq, -⟩ := handleCalls_wellFormed hwf
      refine ⟨hp, ?_⟩
      by_contra hr
      rw [hrep, if_neg hr] at hq
      have hsome := hq _ (List.mem_singleton_self _)
      cases hsome
    · rintro ⟨hp, hr⟩
      rw [if_pos hr, List.map_eq_nil_iff] at hrep
      rw [hrep]
      exact hp
  · intro messages hr hrec
    rw [if_pos hr, List.map_eq_nil_iff] at hrep
    rw [hrep]
    exact hrec.withDecoder d'

/-- The byte string is what the messages encode to, one after the other. -/
def Concatenates (messages : List GroundMessage) (bytes : List UInt8) : Prop :=
  (∀ m ∈ messages, m.Encodes) ∧ bytes = messages.flatMap GroundMessage.bytes

lemma Concatenates.cons {m : GroundMessage} {messages : List GroundMessage} {bytes : List UInt8}
    (hm : m.Encodes) (h : Concatenates messages bytes) :
    Concatenates (m :: messages) (m.bytes ++ bytes) :=
  ⟨List.forall_mem_cons.mpr ⟨hm, h.1⟩, by rw [h.2, List.flatMap_cons]⟩

/-- Messages one after the other are scanned as these messages. -/
lemma Concatenates.scans {messages : List GroundMessage} {bytes : List UInt8}
    (h : Concatenates messages bytes) : Scans frameScanner bytes (tokens messages) [] := by
  have hf : ∀ f ∈ messages.map GroundMessage.bytes, frameScanner.Accepts f := by
    intro f hf
    obtain ⟨m, hm, e⟩ := List.mem_map.mp hf
    exact e ▸ (h.1 m hm).accepts
  have hs := Scans.frames_append hf (.wait frameScanner.verdict_nil)
  rw [List.append_nil, List.append_nil] at hs
  rw [h.2]
  exact hs

/-- What a session with the ground amounts to. -/
lemma session_grammar (chunks : List (List UInt8)) :
    ∃ processor, GroundStreamProcessor.session {} chunks = some processor ∧
      (processor.malformedInput = false ↔ ∃ messages, Concatenates messages chunks.flatten) ∧
      ∀ messages, Concatenates messages chunks.flatten → Received processor messages := by
  obtain ⟨p1, ts, r, hfeed, hscan, htracks⟩ := Tracks.fresh.feeds chunks
  rw [List.nil_append] at hscan htracks
  obtain ⟨p2, hfin, hwf, hrec⟩ := htracks.finish
  have hgo : ∀ messages, Concatenates messages chunks.flatten → Received p2 messages := by
    intro messages hm
    obtain ⟨e1, e2⟩ := hscan.det hm.scans
    exact hrec messages e2 (htracks.received messages hm.1 e1)
  refine ⟨p2, ?_, ?_, hgo⟩
  · rw [GroundStreamProcessor.session, hfeed]
    exact hfin
  · constructor
    · intro h
      obtain ⟨h1, hr⟩ := hwf.mp h
      obtain ⟨messages, hm, e⟩ := htracks.grammar h1
      refine ⟨messages, hm, ?_⟩
      rw [← hscan.spell, hr, List.append_nil, e, spell_tokens]
    · rintro ⟨messages, hm⟩
      exact (hgo messages hm).wellFormed

/-- The read loop feeds the file in chunks. -/
lemma readLoop_chunks (bytes : List UInt8) :
    ∃ chunks : List (List UInt8), chunks.flatten = bytes ∧
      ∀ processor, readLoop processor bytes =
        chunks.foldlM GroundStreamProcessor.feed processor := by
  induction hn : bytes.length using Nat.strongRecOn generalizing bytes with
  | ind n ih =>
    by_cases hlt : bytes.length < ioBufferSize
    · refine ⟨[bytes], by simp, fun processor => ?_⟩
      rw [readLoop, List.take_of_length_le (Nat.le_of_lt hlt)]
      simp [hlt]
    · have hge : 256 ≤ bytes.length := Nat.le_of_not_lt hlt
      obtain ⟨chunks, e, hloop⟩ := ih (bytes.drop ioBufferSize).length
        (by rw [List.length_drop]; change _ - 256 < _; omega) _ rfl
      refine ⟨bytes.take ioBufferSize :: chunks, ?_, fun processor => ?_⟩
      · rw [List.flatten_cons, e, List.take_append_drop]
      · rw [readLoop, List.foldlM_cons]
        simp only [hlt, if_false, hloop]

/-- A file passes if and only if it can be read and is messages, and at least one. -/
lemma runOffline_passes (path : String) (file : TelemetryFile) :
    ∃ result, runOffline path file = some result ∧
      (result.exitCode = 0 ↔ ∃ bytes messages, file = .readable bytes ∧ messages ≠ [] ∧
        Concatenates messages bytes) := by
  cases file with
  | unopenable => exact ⟨_, rfl, by simp⟩
  | failing bytes =>
    obtain ⟨chunks, -, hloop⟩ := readLoop_chunks bytes
    obtain ⟨processor, -, -, hfeed, -, -⟩ := Tracks.fresh.feeds chunks
    rw [← hloop] at hfeed
    exact ⟨_, by rw [runOffline, hfeed]; rfl, by simp⟩
  | readable bytes =>
    obtain ⟨chunks, e, hloop⟩ := readLoop_chunks bytes
    obtain ⟨processor, hs, hwf, hrec⟩ := session_grammar chunks
    rw [e] at hwf hrec
    rw [GroundStreamProcessor.session, ← hloop] at hs
    obtain ⟨p1, hp1, hfin⟩ := Option.bind_eq_some_iff.mp hs
    refine ⟨_, by rw [runOffline, hp1, Option.bind_eq_bind, Option.bind_some, hfin]; rfl, ?_⟩
    constructor
    · intro h
      have hn : ¬ (processor.decodedMessages = 0 ∨ processor.malformedInput) := by
        intro hc
        simp [hc] at h
      obtain ⟨hd, hw⟩ := not_or.mp hn
      obtain ⟨messages, hm⟩ := hwf.mp (Bool.not_eq_true _ ▸ hw)
      refine ⟨bytes, messages, rfl, ?_, hm⟩
      intro e
      subst e
      exact hd (hrec [] hm).decoded
    · rintro ⟨bytes', messages, e, hne, hm⟩
      cases e
      have hr := hrec messages hm
      simp [hr.decoded, hr.wellFormed, hne]

/-- The ground accepts exactly the streams of its grammar. However the stream is cut into chunks, the
flag stays clear if and only if the stream is telemetry and acknowledgements put out by the encoders,
one after the other; then these are counted and printed, in order. A file passes if and only if it is
such a stream and not empty. -/
theorem accepts_grammar :
    (∀ chunks : List (List UInt8), ∃ processor,
      GroundStreamProcessor.session {} chunks = some processor ∧
      (processor.malformedInput = false ↔ ∃ messages, Concatenates messages chunks.flatten) ∧
      ∀ messages, Concatenates messages chunks.flatten →
        processor.decodedMessages = messages.length ∧ processor.output = transcript messages) ∧
    ∀ path file, ∃ result, runOffline path file = some result ∧
      (result.exitCode = 0 ↔ ∃ bytes messages, file = .readable bytes ∧ messages ≠ [] ∧
        Concatenates messages bytes) := by
  refine ⟨fun chunks => ?_, runOffline_passes⟩
  obtain ⟨processor, hs, hwf, hrec⟩ := session_grammar chunks
  refine ⟨processor, hs, hwf, fun messages hm => ?_⟩
  have hr := hrec messages hm
  exact ⟨hr.decoded, hr.output⟩

end ApogeeFC.Ground
