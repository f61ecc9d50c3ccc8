import ApogeeFC.Flight.Journal

/-!
# Answers to command frames

Which stream events the flight loop answers, and how. A handler call for a `FrameDecoded` event whose
frame carries a command is answered with one acknowledgement, and no other call transmits anything
(`commands_answered_once`). A frame of type Command with an unknown id is ignored: `decode_command`
rejects it before `process` could call it invalid, so `InvalidCommand` is never sent
(`unknown_command_ignored`).
-/

namespace ApogeeFC.Flight
open Codec Mealy ApogeeFC.Stream

/-- The stream event is a decoded frame that carries a command. -/
def CommandReceived (streamEvent : FrameStreamEvent) : Prop :=
  streamEvent.status = .frameDecoded ∧ (decode streamEvent.frame.view).frame.CarriesCommand

/-- The answer to a command frame is one acknowledgement under its sequence number. -/
def Acknowledges (frame : Frame) (frames : List EncodedFrame) : Prop :=
  ∃ ack command status, frames = [ack] ∧
    decodeCommandAck ack.view = { message := { sequence := frame.sequence, command, status } } ∧
    frame.payload[0]?.bind CommandDetail.decodeCommand = some command ∧
    (status = .accepted ∨ status = .invalidArgument ∨ status = .rejectedByState)

/-- What an entry transmitted is the answer it called for. -/
def Entry.Answers : Entry → Prop
  | .handled call _ frames =>
    (call.event.status = .frameDecoded → (decode call.event.frame.view).ok) ∧
    (CommandReceived call.event → Acknowledges (decode call.event.frame.view).frame frames) ∧
    (¬ CommandReceived call.event → frames = [])
  | .cycled _ _ frames => ∀ frame ∈ frames, ¬ (decodeCommandAck frame.view).ok

/-- Commands that can be decoded are not answered with `InvalidCommand`. -/
lemma answer_cases {message : CommandMessage} (h : message.command.Named) :
    answer message = .accepted ∨ answer message = .invalidArgument := by
  obtain ⟨sequence, command, periodMs⟩ := message
  cases command with
  | ping => exact .inl rfl
  | enterSafeMode => exact .inl rfl
  | setTelemetryPeriod =>
    rw [answer]
    dsimp only
    split
    · exact .inl rfl
    · exact .inr rfl
  | unnamed => exact absurd rfl h

/-- The handler answers the commands. -/
lemma handleStreamEvent_answers {computer computer' : FlightComputer} (hi : Invariant computer)
    {streamEvent : FrameStreamEvent} {commandTime : Int} {frames}
    (hdec : streamEvent.status = .frameDecoded → (decode streamEvent.frame.view).ok)
    (h : computer.handleStreamEvent true streamEvent commandTime = (computer', frames)) :
    (CommandReceived streamEvent → Acknowledges (decode streamEvent.frame.view).frame frames) ∧
      (¬ CommandReceived streamEvent → frames = []) := by
  rw [FlightComputer.handleStreamEvent] at h
  by_cases hs : streamEvent.status = .frameDecoded
  case neg =>
    rw [if_pos hs] at h
    cases h
    exact ⟨fun hc => absurd hc.1 hs, fun _ => rfl⟩
  rw [if_neg (not_not.mpr hs)] at h
  -- a frame without a command is ignored, whatever its type
  by_cases hok : (decodeCommand streamEvent.frame.view).ok
  case neg =>
    dsimp only at h
    rw [if_pos hok] at h
    cases h
    exact ⟨fun hc => absurd (decodeCommand_ok_iff.mpr ⟨hdec hs, hc.2⟩) hok, fun _ => rfl⟩
  dsimp only at h
  have hnamed := (encodeCommand_decode hok).1
  rw [if_neg (not_not.mpr hok), handleCommand_eq hi, if_pos hnamed] at h
  cases h
  refine ⟨fun _ => ?_, fun hc => absurd ⟨hs, (decodeCommand_ok_iff.mp hok).2⟩ hc⟩
  refine ⟨_, (decodeCommand streamEvent.frame.view).message.command, _, rfl,
    (decodeCommandAck_encode hnamed (named_answer _)).2.trans ?_, (message_decodeCommand hok).2,
    (answer_cases hnamed).imp_right .inl⟩
  rw [acknowledgement, (message_decodeCommand hok).1]

/-- A telemetry cycle sends no acknowledgement. -/
lemma telemetryCycle_answers {ready : Bool} {computer computer' : FlightComputer}
    (hi : Invariant computer) {now readings frames}
    (h : computer.telemetryCycle ready now readings = some (computer', frames)) :
    ∀ frame ∈ frames, ¬ (decodeCommandAck frame.view).ok := by
  obtain ⟨deadline, -, hc⟩ := telemetryCycle_eq hi ready now readings
  rw [hc] at h
  cases h
  intro frame hf hack
  -- what it sends is telemetry, which has another type
  obtain ⟨decoded, hd, ht⟩ := decode_encodeTelemetry (valid_report hi now readings)
  have htype := messageType_of_decodeCommandAck hack
  rw [transmit] at hf
  split at hf
  · rw [List.mem_singleton] at hf
    rw [hf, hd, ht] at htype
    cases htype
  · cases hf

/-- Every entry of a journal answers as it should, if the frames of the stream decoder are frames. -/
lemma Records.answers {computer log computer'} (h : Records true computer log computer')
    (hi : Invariant computer)
    (hdec : ∀ call ∈ callsOf log, call.event.status = .frameDecoded →
      (decode call.event.frame.view).ok) :
    ∀ entry ∈ log, entry.Answers := by
  induction h with
  | nil _ => simp
  | @handled computer computer1 _ call uptime frames log hs hr ih =>
    rw [show callsOf (.handled call uptime frames :: log) = call :: callsOf log from rfl,
      List.forall_mem_cons] at hdec
    rw [List.forall_mem_cons]
    exact ⟨⟨hdec.1, handleStreamEvent_answers hi hdec.1 hs⟩, ih (hi.handled hs) hdec.2⟩
  | cycled _ hs _ ih =>
    rw [List.forall_mem_cons]
    exact ⟨telemetryCycle_answers hi hs, ih (hi.cycled hs) hdec⟩

/-- The stream decoder delivers nothing but frames. -/
lemma decode_decodedFrames {d d' : FrameStreamDecoder} {r bytes : List UInt8} {calls}
    (h : Ready d r) (hp : d.push bytes = some (d', calls)) :
    ∀ call ∈ calls, call.event.status = .frameDecoded → (decode call.event.frame.view).ok := by
  obtain ⟨_, _, ts, r', hpush, -, hscan, hframes, -⟩ := FrameStreamDecoder.push_scans h bytes
  rw [hp] at hpush
  cases hpush
  intro call hcall hs
  refine accepts_iff.mp (hscan.accepts _ ?_)
  rw [← hframes, decodedFrames, List.mem_filterMap]
  exact ⟨call, hcall, if_pos hs⟩

/-- Every command received is answered, and nothing else is. Whatever arrives on a ready UART, and
however it is cut into drain chunks, the loop runs on, and its journal has one entry for each call that
the stream decoder makes on the bytes. A call for a decoded frame of type Command with a known id and
the payload length of that command transmits one acknowledgement under its sequence number; any other
call transmits nothing, and no telemetry cycle transmits an acknowledgement. -/
theorem commands_answered_once (uptime : Int) (iterations : List Iteration) :
    ∃ loop log,
      run (FlightLoop.journal true) { computer := .boot uptime } iterations = some (loop, log) ∧
      run (FlightLoop.iterate true) { computer := .boot uptime } iterations =
        some (loop, sentBy log) ∧
      FrameStreamDecoder.push {} (iterations.flatMap fun i => i.received.map Received.byte) =
        some (loop.streamDecoder, callsOf log) ∧
      ∀ entry ∈ log, entry.Answers := by
  have hready : Ready ({ computer := .boot uptime } : FlightLoop).streamDecoder [] := .empty rfl
  obtain ⟨loop, log, hrun, hj⟩ := run_journals hready (invariant_boot uptime) true iterations
  refine ⟨loop, log, hrun, by rw [run_iterate_journal, hrun]; rfl, hj.decodes, ?_⟩
  exact hj.records.answers (invariant_boot uptime) (decode_decodedFrames hready hj.decodes)

/-- A frame of type Command with the id 4, which no command has. -/
def unknownCommand : EncodedFrame :=
  let frame : Frame := { messageType := .command, sequence := 7, payloadLength := 1 }
  (encode { frame with payload := frame.payload.setIfInBounds 0 4 }).frame

/-- It is delivered as a decoded frame of type Command, and nothing is transmitted. -/
theorem unknown_command_ignored :
    (∃ loop, run (FlightLoop.journal true) { computer := .boot 0 }
      [⟨unknownCommand.view.map (⟨·, fun _ => 500⟩), 500, ⟨7400, 2000, 300⟩⟩] =
        some (loop,
          [.handled ⟨{ status := .frameDecoded, frame := unknownCommand }, 13⟩ 500 []])) ∧
    (decode unknownCommand.view).ok ∧
      (decode unknownCommand.view).frame.messageType = .command ∧
      (decode unknownCommand.view).frame.sequence = 7 := by
  have h : (run (FlightLoop.journal true) { computer := .boot 0 }
      [⟨unknownCommand.view.map (⟨·, fun _ => 500⟩), 500, ⟨7400, 2000, 300⟩⟩]).map Prod.snd =
      some [.handled ⟨{ status := .frameDecoded, frame := unknownCommand }, 13⟩ 500 []] := by
    decide +kernel
  obtain ⟨⟨loop, log⟩, hrun, e⟩ := Option.map_eq_some_iff.mp h
  have e : log = [.handled ⟨{ status := .frameDecoded, frame := unknownCommand }, 13⟩ 500 []] := e
  rw [e] at hrun
  exact ⟨⟨loop, hrun⟩, by decide +kernel, by decide +kernel, by decide +kernel⟩

end ApogeeFC.Flight
