import ApogeeFC.Flight.Pace

/-!
# The diagnostic console

What `main` logs. The loop does not depend on it, so it is read off the journal: `console` goes over the
entries once more and says what each of them logged, in the order of the source.

Two things hold of every console. The mode changes on it are a walk through the modes that leaves none
out, and its texts name the modes of this walk (`console_transitions`). And the errors on it are those of
a UART that is not ready: neither can the encoding of a message fail, nor is there ever an acknowledgement
that cannot be transmitted (`console_errors`).
-/

namespace ApogeeFC.Flight
open Codec Mealy ApogeeFC.Stream

def modeName : FlightMode → String
  | .boot => "Boot"
  | .safe => "Safe"
  | .nominal => "Nominal"
  | .unnamed => "Unknown"

def commandName : CommandId → String
  | .ping => "Ping"
  | .enterSafeMode => "EnterSafeMode"
  | .setTelemetryPeriod => "SetTelemetryPeriod"
  | .unnamed => "Unknown"

def acknowledgementName : CommandAckStatus → String
  | .accepted => "Accepted"
  | .invalidCommand => "InvalidCommand"
  | .invalidArgument => "InvalidArgument"
  | .rejectedByState => "RejectedByState"
  | .unnamed => "Unknown"

inductive LogLevel where
  | inf
  | wrn
  | err
  deriving DecidableEq, Repr

/-- A call of one of the logging macros, with its arguments. -/
inductive LogMessage where
  | booting
  | uartNotReady
  | initialMode
  | transition (previous current : FlightMode)
  | malformedStream (status : FrameStreamStatus) (decodeStatus : DecodeStatus)
  | malformedCommand (status : CommandDecodeStatus) (frameStatus : DecodeStatus)
  | command (sequence : UInt32) (id : CommandId) (status : CommandAckStatus)
  | ackEncodingFailed (status : CommandAckEncodeStatus) (frameStatus : EncodeStatus)
  | ackNotTransmitted
  | telemetryEncodingFailed (status : TelemetryEncodeStatus) (frameStatus : EncodeStatus)
  | telemetryNotTransmitted
  | telemetry (snapshot : TelemetrySnapshot) (latchedFaultMask : UInt8)
  deriving DecidableEq, Repr

namespace LogMessage

def level : LogMessage → LogLevel
  | .uartNotReady => .err
  | .malformedStream _ _ => .wrn
  | .malformedCommand _ _ => .wrn
  | .ackEncodingFailed _ _ => .err
  | .ackNotTransmitted => .err
  | .telemetryEncodingFailed _ _ => .err
  | .telemetryNotTransmitted => .err
  | _ => .inf

/-- A byte as `%02x` prints it. -/
def hexByte (byte : UInt8) : String :=
  String.ofList [Nat.digitChar (byte.toNat / 16), Nat.digitChar (byte.toNat % 16)]

/-- The text, formatted. An enumerator that is cast to an unsigned number is its position. -/
def text : LogMessage → String
  | .booting => "Apogee-FC flight computer booting"
  | .uartNotReady => "UART4 telemetry device is not ready"
  | .initialMode => "Initial flight mode: Boot"
  | .transition previous current =>
    "Flight mode transition: " ++ modeName previous ++ " -> " ++ modeName current
  | .malformedStream status decodeStatus =>
    "Malformed UART4 stream data: status=" ++ toString status.ctorIdx ++
      " decode=" ++ toString decodeStatus.ctorIdx
  | .malformedCommand status frameStatus =>
    "Ignoring malformed command: status=" ++ toString status.ctorIdx ++
      " frame=" ++ toString frameStatus.ctorIdx
  | .command sequence id status =>
    "Command seq=" ++ toString sequence ++ " id=" ++ commandName id ++
      " status=" ++ acknowledgementName status
  | .ackEncodingFailed status frameStatus =>
    "Acknowledgement encoding failed: status=" ++ toString status.ctorIdx ++
      " frame_status=" ++ toString frameStatus.ctorIdx
  | .ackNotTransmitted => "UART4 acknowledgement was not transmitted"
  | .telemetryEncodingFailed status frameStatus =>
    "Telemetry encoding failed: status=" ++ toString status.ctorIdx ++
      " frame_status=" ++ toString frameStatus.ctorIdx
  | .telemetryNotTransmitted => "UART4 telemetry frame was not transmitted"
  | .telemetry snapshot latchedFaultMask =>
    let readings := snapshot.sensorReadings
    "telemetry sequence=" ++ toString snapshot.sequence ++
      " uptime_ms=" ++ toString snapshot.uptimeMs ++ " mode=" ++ modeName snapshot.flightMode ++
      " battery_mv=" ++ toString readings.batteryMv ++
      " temperature_centi_c=" ++ toString readings.boardTemperatureCentiC ++
      " solar_current_ma=" ++ toString readings.solarCurrentMa ++
      " latched_fault_mask=0x" ++ hexByte latchedFaultMask

end LogMessage

/-- What `main` logs before the loop. -/
def bootConsole (ready : Bool) : List LogMessage :=
  let stateMachine : FlightModeStateMachine := {}
  let (_, dispatched) := stateMachine.dispatch .bootCompleted
  [.booting] ++ (if ¬ ready then [.uartNotReady] else []) ++ [.initialMode] ++
    if dispatched then [.transition .boot .safe] else []

namespace FlightComputer

/-- What is logged of a decoded command. -/
def commandConsole (ready : Bool) (computer : FlightComputer) (message : CommandMessage) :
    List LogMessage :=
  let previousMode := computer.stateMachine.mode
  let (computer, acknowledgement) := computer.process message
  let encodedAck := encodeCommandAck acknowledgement
  [.command message.sequence message.command acknowledgement.status] ++
    (if computer.stateMachine.mode ≠ previousMode then
      [.transition previousMode computer.stateMachine.mode]
    else []) ++
    if ¬ encodedAck.ok then [.ackEncodingFailed encodedAck.status encodedAck.frameStatus]
    else if ¬ ready then [.ackNotTransmitted]
    else []

/-- What `handle_stream_event` logs. -/
def handlerConsole (ready : Bool) (computer : FlightComputer) (streamEvent : FrameStreamEvent) :
    List LogMessage :=
  if streamEvent.status ≠ .frameDecoded then
    [.malformedStream streamEvent.status streamEvent.decodeStatus]
  else
    let command := decodeCommand streamEvent.frame.view
    if ¬ command.ok then [.malformedCommand command.status command.frameStatus]
    else computer.commandConsole ready command.message

/-- What a telemetry cycle logs. -/
def cycleConsole (ready : Bool) (computer : FlightComputer) (now : Int)
    (readings : SensorReadings) : List LogMessage :=
  let (_, event) := computer.faultManager.update (HealthMonitor.evaluate readings)
  let previousMode := computer.stateMachine.mode
  let transitions : List LogMessage :=
    match event with
    | none => []
    | some event =>
      let (stateMachine, dispatched) := computer.stateMachine.dispatch event
      if dispatched then [.transition previousMode stateMachine.mode] else []
  let computer := computer.sample readings
  let (computer, message) := computer.capture now readings
  let encoded := encodeTelemetry message
  transitions ++
    (if ¬ encoded.ok then [.telemetryEncodingFailed encoded.status encoded.frameStatus]
    else if ¬ ready then [.telemetryNotTransmitted]
    else []) ++
    [.telemetry message.snapshot computer.faultManager.latchedFaults.faultMask]

/-- What is logged while the loop does what the journal says. -/
def console (ready : Bool) : FlightComputer → List Entry → List LogMessage
  | _, [] => []
  | computer, .handled call uptime _ :: log =>
    computer.handlerConsole ready call.event ++
      console ready (computer.handleStreamEvent ready call.event uptime).1 log
  | computer, .cycled now readings _ :: log =>
    match computer.telemetryCycle ready now readings with
    | none => []
    | some (computer', _) => computer.cycleConsole ready now readings ++ console ready computer' log

end FlightComputer

/-- All that is logged since `main` was entered. -/
def consoleOf (ready : Bool) (uptime : Int) (log : List Entry) : List LogMessage :=
  bootConsole ready ++ (FlightComputer.boot uptime).console ready log

/-- The mode changes on a console. -/
def transitionsOf (messages : List LogMessage) : List (FlightMode × FlightMode) :=
  messages.filterMap fun
    | .transition previous current => some (previous, current)
    | _ => none

/-- The errors on a console. -/
def errorsOf (messages : List LogMessage) : List LogMessage :=
  messages.filter (·.level = .err)

@[simp] lemma transitionsOf_append (messages more : List LogMessage) :
    transitionsOf (messages ++ more) = transitionsOf messages ++ transitionsOf more := by
  simp [transitionsOf]

@[simp] lemma errorsOf_append (messages more : List LogMessage) :
    errorsOf (messages ++ more) = errorsOf messages ++ errorsOf more := by
  simp [errorsOf]

/-- The mode after the next change of mode. -/
def FlightMode.next : FlightMode → FlightMode
  | .safe => .nominal
  | _ => .safe

/-- The next `n` changes of mode. -/
def walk : FlightMode → Nat → List (FlightMode × FlightMode)
  | _, 0 => []
  | mode, n + 1 => (mode, mode.next) :: walk mode.next n

/-- A walk and another from where it ends. -/
lemma walk_add (mode : FlightMode) (m n : Nat) :
    walk mode (m + n) = walk mode m ++ walk (FlightMode.next^[m] mode) n := by
  induction m generalizing mode with
  | zero => rw [Nat.zero_add]; rfl
  | succ m ih =>
    rw [Nat.succ_add, walk, walk, ih, Function.iterate_succ_apply]
    rfl

/-- On the console the mode walks from one to the other. -/
def Walks (mode : FlightMode) (messages : List LogMessage) (mode' : FlightMode) : Prop :=
  ∃ n, transitionsOf messages = walk mode n ∧ FlightMode.next^[n] mode = mode'

lemma Walks.stay {mode : FlightMode} {messages : List LogMessage} (h : transitionsOf messages = []) :
    Walks mode messages mode := ⟨0, h, rfl⟩

lemma Walks.append {mode mode' mode'' : FlightMode} {messages more : List LogMessage}
    (h : Walks mode messages mode') (h' : Walks mode' more mode'') :
    Walks mode (messages ++ more) mode'' := by
  obtain ⟨m, e, hm⟩ := h
  obtain ⟨n, e', hn⟩ := h'
  subst hm
  refine ⟨m + n, ?_, ?_⟩
  · rw [transitionsOf_append, e, e', walk_add]
  · rw [Nat.add_comm, Function.iterate_add_apply]
    exact hn

/-- A change of mode, if it is one. -/
def modeChange (previous current : FlightMode) : List LogMessage :=
  if current ≠ previous then [.transition previous current] else []

/-- In flight the mode that differs is the next one. -/
lemma modeChange_walks {mode mode' : FlightMode} (h : mode = .safe ∨ mode = .nominal)
    (h' : mode' = .safe ∨ mode' = .nominal) : Walks mode (modeChange mode mode') mode' := by
  rw [modeChange]
  split
  case isFalse he =>
    rw [not_not.mp he]
    exact .stay rfl
  case isTrue hne =>
    have e : mode.next = mode' := by
      rcases h with e | e
      · rcases h' with e' | e'
        · exact absurd (e'.trans e.symm) hne
        · rw [e, e']
          rfl
      · rcases h' with e' | e'
        · rw [e, e']
          rfl
        · exact absurd (e'.trans e.symm) hne
    rw [← e]
    exact ⟨1, rfl, rfl⟩

/-- What is logged of a command that can be decoded. -/
lemma commandConsole_eq {computer : FlightComputer} (hi : Invariant computer) (ready : Bool)
    {message : CommandMessage} (hn : message.command.Named) :
    computer.commandConsole ready message =
      [.command message.sequence message.command (answer message)] ++
        modeChange computer.stateMachine.mode (commandedMode computer message).mode ++
        if ¬ ready then [.ackNotTransmitted] else [] := by
  have hok := (encodeCommandAck_acknowledgement message).mpr hn
  rw [FlightComputer.commandConsole, process_eq hi]
  dsimp only
  rw [if_neg (not_not.mpr hok)]
  rfl

/-- What is logged of a telemetry cycle. The source logs a change of mode when `dispatch` reports one;
that is when the mode is another one afterwards. -/
lemma cycleConsole_eq {computer : FlightComputer} (hi : Invariant computer) (ready : Bool) (now : Int)
    (readings : SensorReadings) :
    computer.cycleConsole ready now readings =
      modeChange computer.stateMachine.mode (computer.sample readings).stateMachine.mode ++
        (if ¬ ready then [.telemetryNotTransmitted] else []) ++
        [.telemetry (report computer now readings).snapshot
          (computer.sample readings).faultManager.latchedFaultMask] := by
  have hok : (encodeTelemetry ((computer.sample readings).capture now readings).2).ok :=
    (encodeTelemetry_wire (valid_report hi now readings)).1
  have hu := update_updates hi.manager (HealthMonitor.evaluate readings)
  rw [FlightComputer.cycleConsole]
  dsimp only
  rw [if_neg (not_not.mpr hok)]
  congr 2
  obtain ⟨⟨mode⟩, collector, manager, configuration, deadline⟩ := computer
  have hsafe : manager.faulted → mode = .safe := hi.faulted
  have hmode : mode = .safe ∨ mode = .nominal := hi.mode
  rw [FlightComputer.sample]
  dsimp only at hu ⊢
  generalize manager.update (HealthMonitor.evaluate readings) = result at hu ⊢
  obtain ⟨manager', event⟩ := result
  dsimp only at hu ⊢
  cases hu with
  | detect _ _ =>
    rcases hmode with e | e
    · subst e
      rfl
    · subst e
      rfl
  | persist _ _ => exact (if_neg (not_not.mpr rfl)).symm
  | quiet _ _ => exact (if_neg (not_not.mpr rfl)).symm
  | progress _ _ _ => exact (if_neg (not_not.mpr rfl)).symm
  | confirm _ hf _ =>
    have e := hsafe hf
    subst e
    rfl

/-- What a stream event logs, and what it does to the computer. -/
inductive Handles (ready : Bool) (computer : FlightComputer) (streamEvent : FrameStreamEvent) :
    FlightComputer → List LogMessage → List EncodedFrame → Prop
  | malformedStream : streamEvent.status ≠ .frameDecoded →
    Handles ready computer streamEvent computer
      [.malformedStream streamEvent.status streamEvent.decodeStatus] []
  | malformedCommand {status frameStatus} :
    Handles ready computer streamEvent computer [.malformedCommand status frameStatus] []
  | command {message : CommandMessage} {deadline : Int} : message.command.Named →
    Handles ready computer streamEvent
      { computer with
        stateMachine := commandedMode computer message
        configuration := commandedConfiguration computer message
        nextTelemetryDeadline := deadline }
      ([.command message.sequence message.command (answer message)] ++
        modeChange computer.stateMachine.mode (commandedMode computer message).mode ++
        if ¬ ready then [.ackNotTransmitted] else [])
      (transmit ready (encodeCommandAck (acknowledgement message)).frame)

lemma handlerConsole_handles {computer computer' : FlightComputer} (hi : Invariant computer)
    {ready streamEvent uptime frames}
    (hs : computer.handleStreamEvent ready streamEvent uptime = (computer', frames)) :
    Handles ready computer streamEvent computer' (computer.handlerConsole ready streamEvent) frames := by
  rw [FlightComputer.handleStreamEvent] at hs
  rw [FlightComputer.handlerConsole]
  split at hs
  case isTrue h =>
    cases hs
    rw [if_pos h]
    exact .malformedStream h
  case isFalse h =>
    rw [if_neg h]
    dsimp only at hs ⊢
    split at hs
    case isTrue hok =>
      cases hs
      rw [if_pos hok]
      exact .malformedCommand
    case isFalse hok =>
      have hn := (encodeCommand_decode (not_not.mp hok)).1
      rw [handleCommand_eq hi, if_pos hn] at hs
      cases hs
      rw [if_neg hok, commandConsole_eq hi ready hn]
      exact .command hn

namespace Records

variable {ready : Bool} {computer computer' : FlightComputer} {log : List Entry}

/-- The mode walks on the console from what it was to what it is. -/
lemma walks (h : Records ready computer log computer') (hi : Invariant computer) :
    Walks computer.stateMachine.mode (computer.console ready log) computer'.stateMachine.mode := by
  induction h with
  | nil _ => exact .stay rfl
  | @handled computer computer1 _ call uptime frames log hs _ ih =>
    rw [FlightComputer.console, hs]
    apply Walks.append _ (ih (hi.handled hs))
    have hmode := (hi.handled hs).mode
    have hlogged := handlerConsole_handles hi hs
    generalize computer.handlerConsole ready call.event = messages at hlogged ⊢
    cases hlogged with
    | malformedStream => exact .stay rfl
    | malformedCommand => exact .stay rfl
    | command =>
      rw [List.append_assoc]
      apply Walks.append (.stay rfl)
      apply Walks.append (modeChange_walks hi.mode hmode)
      apply Walks.stay
      cases ready <;> rfl
  | @cycled computer computer1 _ now readings frames log _ hs _ ih =>
    rw [FlightComputer.console, hs]
    apply Walks.append _ (ih (hi.cycled hs))
    obtain ⟨deadline, -, hc⟩ := telemetryCycle_eq hi ready now readings
    rw [hs] at hc
    cases hc
    rw [cycleConsole_eq hi, List.append_assoc]
    apply Walks.append (modeChange_walks hi.mode (hi.sample readings).mode)
    apply Walks.stay
    cases ready <;> rfl

/-- A UART that is ready causes no error; one that is not causes one in each telemetry cycle, and has
nothing to be handled. -/
lemma errors (h : Records ready computer log computer') (hi : Invariant computer)
    (hquiet : ready = false → callsOf log = []) :
    errorsOf (computer.console ready log) =
      if ready then [] else List.replicate (cycleTimes log).length .telemetryNotTransmitted := by
  induction h with
  | nil _ => cases ready <;> rfl
  | @handled computer computer1 _ call uptime frames log hs _ ih =>
    cases ready with
    | false => cases hquiet rfl
    | true =>
      have hlogged := handlerConsole_handles hi hs
      have hrest := ih (hi.handled hs) (fun e => by cases e)
      rw [FlightComputer.console, hs, errorsOf_append, hrest]
      generalize computer.handlerConsole true call.event = messages at hlogged ⊢
      cases hlogged with
      | malformedStream => rfl
      | malformedCommand => rfl
      | command =>
        rw [modeChange]
        split
        · rfl
        · rfl
  | @cycled computer computer1 _ now readings frames log _ hs _ ih =>
    rw [FlightComputer.console, hs]
    have hrest := ih (hi.cycled hs) hquiet
    have hchange : ∀ mode mode', errorsOf (modeChange mode mode') = [] := by
      intro mode mode'
      rw [modeChange]
      split
      · rfl
      · rfl
    rw [errorsOf_append, hrest, cycleConsole_eq hi, errorsOf_append, errorsOf_append, hchange]
    cases ready with
    | true => rfl
    | false => rfl

end Records

/-- The texts of the mode changes on a console. -/
def transitionTexts (messages : List LogMessage) : List String :=
  (messages.filter fun message => "Flight mode transition: ".toList.isPrefixOf message.text.toList).map
    LogMessage.text

/-- The text of the `k`-th change of mode. -/
def changeText : Nat → String
  | 0 => "Flight mode transition: Boot -> Safe"
  | 1 => "Flight mode transition: Safe -> Nominal"
  | 2 => "Flight mode transition: Nominal -> Safe"
  | k + 3 => changeText (k + 1)

/-- The text of a change of mode. -/
abbrev transitionText (change : FlightMode × FlightMode) : String :=
  (LogMessage.transition change.1 change.2).text

/-- The mode changes are told by how their texts begin. -/
lemma transitionTexts_eq (messages : List LogMessage) :
    transitionTexts messages = (transitionsOf messages).map transitionText := by
  induction messages with
  | nil => rfl
  | cons message messages ih =>
    rw [transitionTexts, transitionsOf, List.filter_cons, List.filterMap_cons]
    cases message with
    | transition previous current =>
      have hp : "Flight mode transition: ".toList.isPrefixOf
          (LogMessage.transition previous current).text.toList = true := by
        unfold LogMessage.text
        simp only [String.toList_append, List.append_assoc]
        exact List.isPrefixOf_iff_prefix.mpr (List.prefix_append _ _)
      rw [if_pos hp]
      exact congrArg (_ :: ·) ih
    | _ =>
      rw [if_neg ?_]
      · exact ih
      · unfold LogMessage.text
        simp

/-- A walk is a change after the other, each from where the one before it led. -/
lemma walk_eq (mode : FlightMode) (n : Nat) :
    walk mode n =
      (List.range n).map fun k => (FlightMode.next^[k] mode, FlightMode.next^[k + 1] mode) := by
  induction n generalizing mode with
  | zero => rfl
  | succ n ih =>
    rw [walk, ih, List.range_succ_eq_map, List.map_cons, List.map_map]
    rfl

/-- From `Boot` the mode goes to `Safe`, and then back and forth. -/
lemma transitionText_iterate (k : Nat) :
    transitionText (FlightMode.next^[k] .boot, FlightMode.next^[k + 1] .boot) = changeText k := by
  induction k using changeText.induct with
  | case1 => rfl
  | case2 => rfl
  | case3 => rfl
  | case4 k ih =>
    have hthree : ∀ j, FlightMode.next^[j + 3] .boot = FlightMode.next^[j + 1] .boot := fun j => by
      rw [Function.iterate_add_apply, Function.iterate_add_apply]
      rfl
    rw [changeText, ← ih, hthree k, hthree (k + 1)]

lemma texts_walk (n : Nat) : (walk .boot n).map transitionText = (List.range n).map changeText := by
  rw [walk_eq, List.map_map]
  exact List.map_congr_left fun k _ => transitionText_iterate k

/-- Whatever the loop receives and reads: at any time the mode changes on the console are a walk from
`Boot` to the present mode, to `Safe` and then by turns to `Nominal` and back, and this is what the texts
say. No change is left out or logged twice. -/
theorem console_transitions (ready : Bool) (uptime : Int) (iterations : List Iteration) :
    ∃ loop log,
      run (FlightLoop.journal ready) { computer := .boot uptime } iterations = some (loop, log) ∧
      ∀ before after, log = before ++ after →
        ∃ computer changes, Records ready (.boot uptime) before computer ∧
          Records ready computer after loop.computer ∧
          transitionsOf (consoleOf ready uptime before) = walk .boot changes ∧
          transitionTexts (consoleOf ready uptime before) = (List.range changes).map changeText ∧
          computer.stateMachine.mode = FlightMode.next^[changes] .boot := by
  have hready : Ready ({ computer := .boot uptime } : FlightLoop).streamDecoder [] := .empty rfl
  obtain ⟨loop, log, hrun, hj⟩ := run_journals hready (invariant_boot uptime) ready iterations
  have hboot : Walks .boot (bootConsole ready) (FlightComputer.boot uptime).stateMachine.mode := by
    refine ⟨1, ?_, rfl⟩
    cases ready <;> rfl
  refine ⟨loop, log, hrun, ?_⟩
  intro before after e
  have hrec := hj.records
  rw [e] at hrec
  obtain ⟨computer, h1, h2⟩ := hrec.split
  obtain ⟨changes, hwalk, hmode⟩ := hboot.append (h1.walks (invariant_boot uptime))
  refine ⟨computer, changes, h1, h2, hwalk, ?_, hmode.symm⟩
  rw [transitionTexts_eq, ← texts_walk, ← hwalk]
  rfl

/-- Whatever the loop receives and reads, the errors on the console are those of a UART that is not
ready: one when it boots and one in each telemetry cycle. If it is ready there are none. -/
theorem console_errors (ready : Bool) (uptime : Int) (iterations : List Iteration) :
    ∃ loop log,
      run (FlightLoop.journal ready) { computer := .boot uptime } iterations = some (loop, log) ∧
      (errorsOf (consoleOf ready uptime log)).map LogMessage.text =
        if ready then []
        else "UART4 telemetry device is not ready" :: List.replicate (cycleTimes log).length
          "UART4 telemetry frame was not transmitted" := by
  have hready : Ready ({ computer := .boot uptime } : FlightLoop).streamDecoder [] := .empty rfl
  obtain ⟨loop, log, hrun, hj⟩ := run_journals hready (invariant_boot uptime) ready iterations
  refine ⟨loop, log, hrun, ?_⟩
  have hquiet : ready = false → callsOf log = [] := by
    intro e
    have hpush := hj.decodes
    rw [drained, e] at hpush
    exact (congrArg Prod.snd (Option.some.inj hpush)).symm
  have herrors := hj.records.errors (invariant_boot uptime) hquiet
  rw [consoleOf, errorsOf_append, herrors]
  cases ready with
  | true => rfl
  | false =>
    rw [List.map_append, if_neg Bool.false_ne_true, List.map_replicate]
    rfl

end ApogeeFC.Flight
