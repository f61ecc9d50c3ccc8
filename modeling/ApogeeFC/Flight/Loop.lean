import ApogeeFC.Codec.Command
import ApogeeFC.Codec.Telemetry
import ApogeeFC.Stream.Decoder

/-!
# The flight loop

Model of `flight_configuration.hpp`, `command_processor.hpp` and the loop of `flight/src/main.cpp`.

Everything the loop reads from outside is an input: the bytes the UART delivers, the sensor readings,
and what `k_uptime_get()` returns. Deadlines are integers. What the loop transmits is its output, as
the list of frames. Log messages are left out.

The loop is given at two levels. A `FlightStep` is what it does between two events: process a decoded
command, or run a telemetry cycle. `FlightLoop` adds the stream decoder in front and takes bytes.
-/

namespace ApogeeFC.Flight
open Codec ApogeeFC.Stream

abbrev minimumTelemetryPeriodMs : UInt32 := 250
abbrev maximumTelemetryPeriodMs : UInt32 := 10000

structure FlightConfiguration where
  telemetryPeriodMs : UInt32 := 1000
  deriving DecidableEq, Repr

/-- The processor holds references to these two. -/
structure CommandProcessor where
  stateMachine : FlightModeStateMachine
  configuration : FlightConfiguration
  deriving DecidableEq, Repr

namespace CommandProcessor

def enterSafeMode (processor : CommandProcessor) : CommandProcessor × CommandAckStatus :=
  match processor.stateMachine.mode with
  | .boot => (processor, .rejectedByState)
  | .safe => (processor, .accepted)
  | .nominal =>
    let (stateMachine, dispatched) := processor.stateMachine.dispatch .safeModeRequested
    ({ processor with stateMachine }, if dispatched then .accepted else .rejectedByState)
  | .unnamed => (processor, .rejectedByState)

def setTelemetryPeriod (processor : CommandProcessor) (periodMs : UInt32) :
    CommandProcessor × CommandAckStatus :=
  if periodMs < minimumTelemetryPeriodMs ∨ maximumTelemetryPeriodMs < periodMs then
    (processor, .invalidArgument)
  else ({ processor with configuration := { telemetryPeriodMs := periodMs } }, .accepted)

def process (processor : CommandProcessor) (command : CommandMessage) :
    CommandProcessor × CommandAckMessage :=
  let (processor, status) :=
    match command.command with
    | .ping => (processor, .accepted)
    | .enterSafeMode => processor.enterSafeMode
    | .setTelemetryPeriod => processor.setTelemetryPeriod command.periodMs
    | .unnamed => (processor, .invalidCommand)
  (processor, { sequence := command.sequence, command := command.command, status })

end CommandProcessor

/-- The objects of `main`. -/
structure FlightComputer where
  stateMachine : FlightModeStateMachine
  telemetryCollector : TelemetryCollector
  faultManager : FaultManager
  configuration : FlightConfiguration
  nextTelemetryDeadline : Int
  deriving DecidableEq, Repr

/-- `TelemetryLink::transmit`, as the frames that leave the UART. -/
def transmit (ready : Bool) (frame : EncodedFrame) : List EncodedFrame :=
  if ready then [frame] else []

namespace FlightComputer

/-- The state before the loop, with what `k_uptime_get()` returns there. -/
def boot (uptime : Int) : FlightComputer :=
  let stateMachine : FlightModeStateMachine := {}
  let (stateMachine, _) := stateMachine.dispatch .bootCompleted
  let configuration : FlightConfiguration := {}
  { stateMachine
    telemetryCollector := {}
    faultManager := { faulted := true }
    configuration
    nextTelemetryDeadline := uptime + configuration.telemetryPeriodMs.toNat }

/-- `command_processor.process`. -/
def process (computer : FlightComputer) (message : CommandMessage) :
    FlightComputer × CommandAckMessage :=
  let (processor, acknowledgement) :=
    CommandProcessor.process ⟨computer.stateMachine, computer.configuration⟩ message
  ({ computer with
      stateMachine := processor.stateMachine
      configuration := processor.configuration }, acknowledgement)

/-- The part of the stream handler that deals with a decoded command. -/
def handleCommand (ready : Bool) (computer : FlightComputer) (message : CommandMessage)
    (commandTime : Int) : FlightComputer × List EncodedFrame :=
  let (computer, acknowledgement) := computer.process message
  -- the telemetry schedule starts over at the time of the command
  let computer :=
    if acknowledgement.status = .accepted ∧ message.command = .setTelemetryPeriod then
      { computer with
        nextTelemetryDeadline := commandTime + computer.configuration.telemetryPeriodMs.toNat }
    else computer
  let encodedAck := encodeCommandAck acknowledgement
  (computer, if ¬ encodedAck.ok then [] else transmit ready encodedAck.frame)

/-- The `do` loop that moves the deadline past `now`, for at most the given number of rounds. -/
def catchUp (period now : Int) : Nat → Int → Option Int
  | 0, _ => none
  | rounds + 1, deadline =>
    let deadline := deadline + period
    if deadline ≤ now then catchUp period now rounds deadline else some deadline

/-- Evaluate the readings, update the fault manager and dispatch its event. -/
def sample (computer : FlightComputer) (readings : SensorReadings) : FlightComputer :=
  let healthReport := HealthMonitor.evaluate readings
  let (faultManager, event) := computer.faultManager.update healthReport
  let stateMachine :=
    match event with
    | some event => (computer.stateMachine.dispatch event).1
    | none => computer.stateMachine
  { computer with faultManager, stateMachine }

/-- The message of a telemetry cycle, and the collector after it. -/
def capture (computer : FlightComputer) (now : Int) (readings : SensorReadings) :
    FlightComputer × TelemetryMessage :=
  let (telemetryCollector, snapshot) :=
    computer.telemetryCollector.capture (.ofInt now) computer.stateMachine.mode readings
  let latchedFaultMask := computer.faultManager.latchedFaults.faultMask
  ({ computer with telemetryCollector }, { snapshot, latchedFaultMask := latchedFaultMask.toUInt32 })

/-- The telemetry cycle. With a period of zero its last loop would not end. -/
def telemetryCycle (ready : Bool) (computer : FlightComputer) (now : Int)
    (readings : SensorReadings) : Option (FlightComputer × List EncodedFrame) := do
  let computer := computer.sample readings
  let (computer, message) := computer.capture now readings
  let encoded := encodeTelemetry message
  let frames := if ¬ encoded.ok then [] else transmit ready encoded.frame
  -- a positive period moves the deadline by at least one in every round
  let nextTelemetryDeadline ← catchUp computer.configuration.telemetryPeriodMs.toNat now
    ((now - computer.nextTelemetryDeadline).toNat + 1) computer.nextTelemetryDeadline
  some ({ computer with nextTelemetryDeadline }, frames)

/-- The lambda `handle_stream_event`, with what `k_uptime_get()` returns in it. -/
def handleStreamEvent (ready : Bool) (computer : FlightComputer) (streamEvent : FrameStreamEvent)
    (commandTime : Int) : FlightComputer × List EncodedFrame :=
  if streamEvent.status ≠ .frameDecoded then (computer, [])
  else
    let command := decodeCommand streamEvent.frame.view
    -- malformed commands and frames of other types are ignored
    if ¬ command.ok then (computer, [])
    else computer.handleCommand ready command.message commandTime

/-- The calls of the handler during one `push`, with what `k_uptime_get()` returns in the `k`-th. -/
def handleCalls (ready : Bool) (uptime : Nat → Int) :
    Nat → FlightComputer → List HandlerCall → FlightComputer × List EncodedFrame
  | _, computer, [] => (computer, [])
  | k, computer, call :: calls =>
    let (computer, frames) := computer.handleStreamEvent ready call.event (uptime k)
    let (computer, more) := handleCalls ready uptime (k + 1) computer calls
    (computer, frames ++ more)

end FlightComputer

/-- What the loop does between two events. -/
inductive FlightStep where
  | command (message : CommandMessage) (commandTime : Int)
  | telemetry (now : Int) (readings : SensorReadings)
  deriving DecidableEq, Repr

def FlightComputer.step (ready : Bool) (computer : FlightComputer) :
    FlightStep → Option (FlightComputer × List EncodedFrame)
  | .command message commandTime => some (computer.handleCommand ready message commandTime)
  | .telemetry now readings => computer.telemetryCycle ready now readings

/-- The objects of `main`, the stream decoder included. -/
structure FlightLoop where
  computer : FlightComputer
  streamDecoder : FrameStreamDecoder := {}
  deriving DecidableEq, Repr

/-- A byte from `uart_poll_in`, with what `k_uptime_get()` returns while it is handled. -/
structure Received where
  byte : UInt8
  uptime : Nat → Int

namespace FlightLoop

def receive (ready : Bool) (loop : FlightLoop) (received : Received) :
    Option (FlightLoop × List EncodedFrame) := do
  let (streamDecoder, calls) ← loop.streamDecoder.pushByte received.byte
  let (computer, frames) := loop.computer.handleCalls ready received.uptime 0 calls
  some ({ computer, streamDecoder }, frames)

def drain (ready : Bool) (loop : FlightLoop) (bytes : List Received) :
    Option (FlightLoop × List EncodedFrame) :=
  if ¬ ready then some (loop, []) else Mealy.run (receive ready) loop bytes

/-- The telemetry cycle, as the loop takes it when the deadline has come. -/
def cycle (ready : Bool) (loop : FlightLoop) (now : Int) (readings : SensorReadings) :
    Option (FlightLoop × List EncodedFrame) := do
  let (computer, frames) ← loop.computer.telemetryCycle ready now readings
  some ({ loop with computer }, frames)

end FlightLoop

/-- One round of the `while` loop: what is received, and the time and the readings after it. -/
structure Iteration where
  received : List Received
  now : Int
  readings : SensorReadings

def FlightLoop.iterate (ready : Bool) (loop : FlightLoop) (iteration : Iteration) :
    Option (FlightLoop × List EncodedFrame) := do
  let (loop, frames) ← loop.drain ready iteration.received
  if loop.computer.nextTelemetryDeadline ≤ iteration.now then do
    let (loop, more) ← loop.cycle ready iteration.now iteration.readings
    some (loop, frames ++ more)
  else some (loop, frames)

end ApogeeFC.Flight
