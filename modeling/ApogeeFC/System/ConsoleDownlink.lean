import ApogeeFC.Flight.Console
import ApogeeFC.System.Link

/-!
# The console and the downlink

The flight computer reports twice: it logs every command that it has processed and every telemetry
cycle, and it sends both down. The two reports agree (`console_downlink`): the ground shows what the
console shows, in the same order, as far as it has arrived. The texts are not the same, and the two
programs have their own tables of names, but what stands in them is (`Alike`).
-/

namespace ApogeeFC.System
open Codec Flight Ground Mealy Scan ApogeeFC.Stream

/-- The message to the ground that says the same. -/
def reported? : LogMessage → Option GroundMessage
  | .command sequence command status => some (.acknowledgement { sequence, command, status })
  | .telemetry snapshot latchedFaultMask =>
    some (.telemetry { snapshot, latchedFaultMask := latchedFaultMask.toUInt32 })
  | _ => none

/-- What a console reports. -/
def reportedOn (messages : List LogMessage) : List GroundMessage := messages.filterMap reported?

lemma reportedOn_append (messages more : List LogMessage) :
    reportedOn (messages ++ more) = reportedOn messages ++ reportedOn more := List.filterMap_append

/-- A text on the console and a line of the ground with the same numbers and names in them. The console
writes the fault mask in hexadecimal. -/
inductive Alike : String → String → Prop
  | command (sequence id status : String) :
    Alike ("Command seq=" ++ sequence ++ " id=" ++ id ++ " status=" ++ status)
      ("ack sequence=" ++ sequence ++ " command=" ++ id ++ " status=" ++ status ++ "\n")
  | telemetry (data : String) (latchedFaultMask : UInt8) :
    Alike ("telemetry " ++ data ++ " latched_fault_mask=0x" ++ LogMessage.hexByte latchedFaultMask)
      (data ++ " fault_mask=" ++ toString latchedFaultMask.toUInt32 ++ "\n")

/-- The two tables of names agree. -/
lemma modeName_eq : Flight.modeName = Ground.modeName := by
  funext mode
  cases mode <;> rfl

lemma commandName_eq : Flight.commandName = Ground.commandName := by
  funext command
  cases command <;> rfl

lemma acknowledgementName_eq : Flight.acknowledgementName = Ground.acknowledgementName := by
  funext status
  cases status <;> rfl

lemma alike_command (sequence : UInt32) (id : CommandId) (status : CommandAckStatus) :
    Alike (LogMessage.command sequence id status).text
      (acknowledgementLine { sequence, command := id, status }) := by
  unfold LogMessage.text
  dsimp only
  rw [commandName_eq, acknowledgementName_eq]
  exact .command (toString sequence) (Ground.commandName id) (Ground.acknowledgementName status)

lemma alike_telemetry (snapshot : TelemetrySnapshot) (latchedFaultMask : UInt8) :
    Alike (LogMessage.telemetry snapshot latchedFaultMask).text
      (telemetryLine { snapshot, latchedFaultMask := latchedFaultMask.toUInt32 }) := by
  have hfront : "telemetry " ++ "sequence=" = "telemetry sequence=" := rfl
  have hline := Alike.telemetry ("sequence=" ++ toString snapshot.sequence ++
    " uptime_ms=" ++ toString snapshot.uptimeMs ++
    " mode=" ++ Ground.modeName snapshot.flightMode ++
    " battery_mv=" ++ toString snapshot.sensorReadings.batteryMv ++
    " temperature_centi_c=" ++ toString snapshot.sensorReadings.boardTemperatureCentiC ++
    " solar_current_ma=" ++ toString snapshot.sensorReadings.solarCurrentMa) latchedFaultMask
  simp only [← String.append_assoc, hfront] at hline
  unfold LogMessage.text
  dsimp only
  rw [modeName_eq]
  exact hline

/-- What is reported on the console reads like what the ground prints. -/
lemma alike_line {message : LogMessage} {reported : GroundMessage}
    (h : reported? message = some reported) : Alike message.text reported.line := by
  cases message with
  | command sequence id status =>
    have e := Option.some.inj h
    subst e
    exact alike_command sequence id status
  | telemetry snapshot latchedFaultMask =>
    have e := Option.some.inj h
    subst e
    exact alike_telemetry snapshot latchedFaultMask
  | _ => cases h

/-- The texts of what a console reports. -/
def reportTexts (messages : List LogMessage) : List String :=
  (messages.filter fun message => (reported? message).isSome).map LogMessage.text

lemma alike_reportedOn (messages : List LogMessage) :
    List.Forall₂ Alike (reportTexts messages) ((reportedOn messages).map GroundMessage.line) := by
  induction messages with
  | nil => exact .nil
  | cons message messages ih =>
    rw [reportTexts, reportedOn, List.filter_cons, List.filterMap_cons]
    cases h : reported? message with
    | none => exact ih
    | some reported => exact .cons (alike_line h) ih

/-- A change of mode is not reported on its own. -/
lemma reportedOn_modeChange (previous current : FlightMode) :
    reportedOn (modeChange previous current) = [] := by
  rw [modeChange]
  split
  · rfl
  · rfl

/-- What is sent while the loop does what the journal says is what the console reports. -/
lemma concatenates_console {computer computer' : FlightComputer} {log}
    (h : Records true computer log computer') (hi : Invariant computer) :
    Concatenates (reportedOn (computer.console true log)) ((sentBy log).flatMap EncodedFrame.view) := by
  induction h with
  | nil _ => exact ⟨by simp [reportedOn, FlightComputer.console], rfl⟩
  | @handled computer computer1 _ call uptime frames log hs _ ih =>
    have hlogged := handlerConsole_handles hi hs
    have hrest := ih (hi.handled hs)
    rw [FlightComputer.console, hs, reportedOn_append, sentBy, List.flatMap_cons, List.flatMap_append]
    apply concatenates_append _ hrest
    generalize computer.handlerConsole true call.event = messages at hlogged ⊢
    show Concatenates _ (frames.flatMap EncodedFrame.view)
    cases hlogged with
    | malformedStream => exact ⟨by simp [reportedOn, reported?], rfl⟩
    | malformedCommand => exact ⟨by simp [reportedOn, reported?], rfl⟩
    | @command message deadline hn =>
      have hok := (encodeCommandAck_acknowledgement message).mpr hn
      rw [reportedOn_append, reportedOn_append, reportedOn_modeChange, List.append_nil]
      refine ⟨?_, by simp [reportedOn, reported?, transmit, GroundMessage.bytes, acknowledgement]⟩
      intro m hm
      cases List.mem_singleton.mp hm
      exact hok
  | @cycled computer computer1 _ now readings frames log _ hs _ ih =>
    have hrest := ih (hi.cycled hs)
    obtain ⟨deadline, -, hc⟩ := telemetryCycle_eq hi true now readings
    rw [FlightComputer.console, hs, reportedOn_append, sentBy, List.flatMap_cons, List.flatMap_append]
    apply concatenates_append _ hrest
    rw [hs] at hc
    cases hc
    rw [cycleConsole_eq hi, reportedOn_append, reportedOn_append, reportedOn_modeChange]
    refine ⟨?_, by simp [reportedOn, reported?, transmit, GroundMessage.bytes, Entry.frames, report,
      FlightComputer.capture]; rfl⟩
    intro m hm
    cases List.mem_singleton.mp hm
    exact (encodeTelemetry_wire (valid_report hi now readings)).1

/-- A processor that is fed a part of what is sent down in chunks shows the messages in it. -/
lemma feeds_messages {processor : GroundStreamProcessor} {r rest : List UInt8}
    {chunks : List (List UInt8)} {messages : List GroundMessage} (h : Ready processor.decoder r)
    (hc : Concatenates messages (r ++ chunks.flatten ++ rest)) :
    ∃ processor' shown waiting, chunks.foldlM GroundStreamProcessor.feed processor = some processor' ∧
      messages = shown ++ waiting ∧ processor'.output = processor.output ++ transcript shown ∧
      processor'.malformedInput = processor.malformedInput := by
  induction chunks generalizing processor r messages with
  | nil => exact ⟨processor, [], messages, rfl, rfl, String.append_empty.symm, rfl⟩
  | cons chunk chunks ih =>
    obtain ⟨d, calls, ts, r₁, hpush, -⟩ := FrameStreamDecoder.push_scans h chunk
    have hfeed := feed_eq processor chunk
    rw [hpush, Option.map_some] at hfeed
    rw [List.flatten_cons, ← List.append_assoc r, List.append_assoc _ _ rest] at hc
    obtain ⟨shown, waiting, r', e, hready, hc', hout, hmal⟩ := feed_messages h hc hfeed
    subst e
    rw [← List.append_assoc] at hc'
    obtain ⟨processor', shown', waiting', hfeeds, e, hout', hmal'⟩ := ih hready hc'
    subst e
    refine ⟨processor', shown ++ shown', waiting', ?_, by rw [List.append_assoc], ?_,
      hmal'.trans hmal⟩
    · rw [List.foldlM_cons, hfeed]
      exact hfeeds
    · rw [hout', hout, String.append_assoc]
      simp

/-- Whatever the loop receives and reads, and however what it sends is cut into chunks: the ground shows
the commands and the telemetry on the console, in their order and with the same numbers and names. It
never shows anything else; when part of what was sent has arrived it shows the first of these messages,
and when everything has, all of them. -/
theorem console_downlink (uptime : Int) (iterations : List Iteration) :
    ∃ loop log,
      run (FlightLoop.journal true) { computer := .boot uptime } iterations = some (loop, log) ∧
      run (FlightLoop.iterate true) { computer := .boot uptime } iterations =
        some (loop, sentBy log) ∧
      List.Forall₂ Alike (reportTexts (consoleOf true uptime log))
        ((reportedOn (consoleOf true uptime log)).map GroundMessage.line) ∧
      ∀ chunks : List (List UInt8), ∀ rest,
        chunks.flatten ++ rest = (sentBy log).flatMap EncodedFrame.view →
        ∃ processor shown waiting, chunks.foldlM GroundStreamProcessor.feed {} = some processor ∧
          reportedOn (consoleOf true uptime log) = shown ++ waiting ∧
          processor.output = transcript shown ∧ processor.malformedInput = false ∧
          (rest = [] → ∃ processor', processor.finish = some processor' ∧
            processor'.output = transcript (reportedOn (consoleOf true uptime log)) ∧
            processor'.malformedInput = false) := by
  have hready : Ready ({ computer := .boot uptime } : FlightLoop).streamDecoder [] := .empty rfl
  obtain ⟨loop, log, hrun, hj⟩ := run_journals hready (invariant_boot uptime) true iterations
  have hboot : reportedOn (consoleOf true uptime log) =
      reportedOn ((FlightComputer.boot uptime).console true log) := by
    rw [consoleOf, reportedOn_append]
    rfl
  have hm := concatenates_console hj.records (invariant_boot uptime)
  rw [← hboot] at hm
  refine ⟨loop, log, hrun, by rw [run_iterate_journal, hrun]; rfl, alike_reportedOn _, ?_⟩
  intro chunks rest e
  have hfresh : Ready ({} : GroundStreamProcessor).decoder [] := .empty rfl
  rw [← e] at hm
  obtain ⟨processor, shown, waiting, hfeeds, hmessages, hout, hmal⟩ := feeds_messages hfresh hm
  refine ⟨processor, shown, waiting, hfeeds, hmessages, by simpa using hout, hmal, ?_⟩
  intro hrest
  subst hrest
  rw [List.append_nil] at hm
  obtain ⟨processor', hsession, -, hrec⟩ := session_grammar chunks
  rw [GroundStreamProcessor.session, hfeeds] at hsession
  have hr := hrec _ hm
  exact ⟨processor', hsession, hr.output, hr.wellFormed⟩

end ApogeeFC.System
