import ApogeeFC.Codec.Command
import ApogeeFC.Codec.Telemetry
import ApogeeFC.Stream.Decoder

/-!
# The ground stream processor

Model of `GroundStreamProcessor` in `ground_client.hpp` and of `run_offline` in
`apogee_ground_client.cpp`. What is written to a stream is appended to a string. The two streams are
kept apart; how their texts interleave on a terminal is not modelled.
-/

namespace ApogeeFC.Ground
open Codec Flight ApogeeFC.Stream

def modeName : FlightMode → String
  | .boot => "Boot"
  | .safe => "Safe"
  | .nominal => "Nominal"
  | .unnamed => "Unknown"

def commandName : CommandId → String
  | .ping => "Ping"
  | .enterSafeMode => "EnterSafeMode"
  | .setTelemetryPeriod => "SetTelemetryPeriod"
  | .unnamed => "Unknown"

def acknowledgementName : CommandAckStatus → String
  | .accepted => "Accepted"
  | .invalidCommand => "InvalidCommand"
  | .invalidArgument => "InvalidArgument"
  | .rejectedByState => "RejectedByState"
  | .unnamed => "Unknown"

/-- What `print_telemetry` writes. -/
def telemetryLine (message : TelemetryMessage) : String :=
  let snapshot := message.snapshot
  let readings := snapshot.sensorReadings
  "sequence=" ++ toString snapshot.sequence ++ " uptime_ms=" ++ toString snapshot.uptimeMs ++
    " mode=" ++ modeName snapshot.flightMode ++ " battery_mv=" ++ toString readings.batteryMv ++
    " temperature_centi_c=" ++ toString readings.boardTemperatureCentiC ++
    " solar_current_ma=" ++ toString readings.solarCurrentMa ++
    " fault_mask=" ++ toString message.latchedFaultMask ++ "\n"

/-- What `print_acknowledgement` writes. -/
def acknowledgementLine (message : CommandAckMessage) : String :=
  "ack sequence=" ++ toString message.sequence ++ " command=" ++ commandName message.command ++
    " status=" ++ acknowledgementName message.status ++ "\n"

structure GroundStreamProcessor where
  decoder : FrameStreamDecoder := {}
  output : String := ""
  errors : String := ""
  decodedMessages : Nat := 0
  malformedInput : Bool := false
  deriving DecidableEq, Repr

namespace GroundStreamProcessor

/-- Every complaint sets the flag. -/
def complain (processor : GroundStreamProcessor) (text : String) : GroundStreamProcessor :=
  { processor with errors := processor.errors ++ text, malformedInput := true }

def printTelemetry (processor : GroundStreamProcessor) (frameBytes : List UInt8) :
    GroundStreamProcessor :=
  let decoded := decodeTelemetry frameBytes
  if ¬ decoded.ok then processor.complain "Malformed telemetry frame\n"
  else
    { processor with
      output := processor.output ++ telemetryLine decoded.message
      decodedMessages := processor.decodedMessages + 1 }

def printAcknowledgement (processor : GroundStreamProcessor) (frameBytes : List UInt8) :
    GroundStreamProcessor :=
  let decoded := decodeCommandAck frameBytes
  if ¬ decoded.ok then processor.complain "Malformed acknowledgement frame\n"
  else
    { processor with
      output := processor.output ++ acknowledgementLine decoded.message
      decodedMessages := processor.decodedMessages + 1 }

def reportStreamError (processor : GroundStreamProcessor) (event : FrameStreamEvent) :
    GroundStreamProcessor :=
  processor.complain <|
    match event.status with
    | .noiseDiscarded => "Discarded " ++ toString event.discardedBytes ++ " noise byte(s)\n"
    | .truncated => "Truncated frame at end of stream\n"
    | _ => "Rejected malformed frame\n"

def handleEvent (processor : GroundStreamProcessor) (event : FrameStreamEvent) :
    GroundStreamProcessor :=
  if event.status ≠ .frameDecoded then processor.reportStreamError event
  else
    let frameBytes := event.frame.view
    let frame := decode frameBytes
    if ¬ frame.ok then processor.complain "Malformed frame\n"
    else
      match frame.frame.messageType with
      | .telemetry => processor.printTelemetry frameBytes
      | .commandAck => processor.printAcknowledgement frameBytes
      | .command => processor.complain "Unexpected command frame\n"
      -- the `switch` has no `default`
      | .unnamed => processor

/-- The calls of the handler during one `push` or `finish`. -/
def handleCalls (processor : GroundStreamProcessor) (calls : List HandlerCall) :
    GroundStreamProcessor :=
  calls.foldl (fun processor call => processor.handleEvent call.event) processor

def feed (processor : GroundStreamProcessor) (bytes : List UInt8) :
    Option GroundStreamProcessor := do
  let (decoder, calls) ← processor.decoder.push bytes
  some ({ processor with decoder }.handleCalls calls)

def finish (processor : GroundStreamProcessor) : Option GroundStreamProcessor := do
  let (decoder, calls) ← processor.decoder.finish
  some ({ processor with decoder }.handleCalls calls)

/-- The stream in chunks, and its end. -/
def session (processor : GroundStreamProcessor) (chunks : List (List UInt8)) :
    Option GroundStreamProcessor := do
  let processor ← chunks.foldlM feed processor
  processor.finish

end GroundStreamProcessor

/-- What `run_offline` finds at the path: nothing it can open, a file that it can read to the end, or
one on which a read fails after the given bytes. -/
inductive TelemetryFile where
  | unopenable
  | readable (bytes : List UInt8)
  | failing (bytes : List UInt8)
  deriving DecidableEq, Repr

/-- What the program leaves behind. -/
structure ProgramResult where
  exitCode : Nat
  output : String
  errors : String
  deriving DecidableEq, Repr

abbrev ioBufferSize : Nat := 256

/-- The loop `while (input)`: a read that comes back short is the last one. -/
def readLoop (processor : GroundStreamProcessor) (bytes : List UInt8) :
    Option GroundStreamProcessor := do
  let processor ← processor.feed (bytes.take ioBufferSize)
  if bytes.length < ioBufferSize then some processor
  else readLoop processor (bytes.drop ioBufferSize)
termination_by bytes.length
decreasing_by
  rw [List.length_drop]
  simp only [ioBufferSize] at *
  omega

def runOffline (path : String) (file : TelemetryFile) : Option ProgramResult :=
  match file with
  | .unopenable =>
    some
      { exitCode := 1
        output := ""
        errors := "Unable to open telemetry file: " ++ path ++ "\n" }
  | .failing bytes => do
    let processor ← readLoop {} bytes
    some
      { exitCode := 1
        output := processor.output
        errors := processor.errors ++ "Error while reading telemetry file\n" }
  | .readable bytes => do
    let processor ← readLoop {} bytes
    let processor ← processor.finish
    some
      { exitCode := if processor.decodedMessages = 0 ∨ processor.malformedInput then 1 else 0
        output := processor.output
        errors := processor.errors }

end ApogeeFC.Ground
