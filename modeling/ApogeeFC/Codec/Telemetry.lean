import ApogeeFC.Codec.Frame
import ApogeeFC.Flight.Vehicle

/-!
# The telemetry codec

Model of `telemetry_codec.hpp`. A telemetry payload has 19 bytes:

  `uptime (u64) | mode | battery (u16) | temperature (i16) | solar current (u16) | faults (u32)`

with every word little-endian. `decodeTelemetry` does not look at the type of the frame.
-/

namespace ApogeeFC.Codec
open Buffer LittleEndian Flight

abbrev telemetryPayloadSize : UInt16 := 19

def knownFaultMask : UInt32 :=
  Fault.batteryUndervoltage.bits.toUInt32 ||| Fault.boardUndertemperature.bits.toUInt32 |||
    Fault.boardOvertemperature.bits.toUInt32

structure TelemetryMessage where
  snapshot : TelemetrySnapshot :=
    { sequence := 0, uptimeMs := 0, flightMode := .boot,
      sensorReadings := { batteryMv := 0, boardTemperatureCentiC := 0, solarCurrentMa := 0 } }
  latchedFaultMask : UInt32 := 0
  deriving DecidableEq, Repr

inductive TelemetryEncodeStatus where
  | ok
  | invalidFlightMode
  | unknownFaultBits
  | frameEncodeFailure
  deriving DecidableEq, Repr

structure TelemetryEncodeResult where
  status : TelemetryEncodeStatus := .ok
  frameStatus : EncodeStatus := .ok
  frame : EncodedFrame := {}
  deriving DecidableEq, Repr

def TelemetryEncodeResult.ok (result : TelemetryEncodeResult) : Bool := result.status = .ok

inductive TelemetryDecodeStatus where
  | ok
  | frameDecodeFailure
  | incorrectPayloadLength
  | invalidFlightMode
  | unknownFaultBits
  deriving DecidableEq, Repr

structure TelemetryDecodeResult where
  status : TelemetryDecodeStatus := .ok
  frameStatus : DecodeStatus := .ok
  message : TelemetryMessage := {}
  deriving DecidableEq, Repr

def TelemetryDecodeResult.ok (result : TelemetryDecodeResult) : Bool := result.status = .ok

namespace TelemetryDetail

def encodeFlightMode : FlightMode → Option UInt8
  | .boot => some 0
  | .safe => some 1
  | .nominal => some 2
  | .unnamed => none

def decodeFlightMode (encoded : UInt8) : Option FlightMode :=
  match encoded with
  | 0 => some .boot
  | 1 => some .safe
  | 2 => some .nominal
  | _ => none

def writeU16Le (frame : Frame) (offset : Nat) (value : UInt16)
    (h : offset + 2 ≤ maximumPayloadSize) : Frame :=
  { frame with payload := fill frame.payload offset (bytes16 value) h }

def writeU32Le (frame : Frame) (offset : Nat) (value : UInt32)
    (h : offset + 4 ≤ maximumPayloadSize) : Frame :=
  { frame with
    payload := fill frame.payload offset (bytesLoop 4 value.toBitVec) (by rwa [length_bytesLoop]) }

def writeU64Le (frame : Frame) (offset : Nat) (value : UInt64)
    (h : offset + 8 ≤ maximumPayloadSize) : Frame :=
  { frame with
    payload := fill frame.payload offset (bytesLoop 8 value.toBitVec) (by rwa [length_bytesLoop]) }

def readU16Le (frame : Frame) (offset : Nat) (h : offset + 2 ≤ maximumPayloadSize) : UInt16 :=
  have h64 : offset + 2 ≤ 64 := h
  word16 frame.payload[offset] frame.payload[offset + 1]

def readU32Le (frame : Frame) (offset : Nat) (_ : offset + 4 ≤ maximumPayloadSize) : UInt32 :=
  .ofBitVec (wordLoop 0 0 (span frame.payload offset 4))

def readU64Le (frame : Frame) (offset : Nat) (_ : offset + 8 ≤ maximumPayloadSize) : UInt64 :=
  .ofBitVec (wordLoop 0 0 (span frame.payload offset 8))

def decodeTemperature (encoded : UInt16) : Int16 :=
  if encoded ≤ 0x7FFF then encoded.toInt16 else .ofInt (encoded.toNat - 65536)

end TelemetryDetail

open TelemetryDetail

def encodeTelemetry (message : TelemetryMessage) : TelemetryEncodeResult :=
  match encodeFlightMode message.snapshot.flightMode with
  | none => { status := .invalidFlightMode }
  | some encodedMode =>
    if message.latchedFaultMask &&& ~~~knownFaultMask ≠ 0 then { status := .unknownFaultBits }
    else
      let frame : Frame := {}
      let frame :=
        { frame with
          messageType := .telemetry
          payloadLength := telemetryPayloadSize
          sequence := message.snapshot.sequence }
      let readings := message.snapshot.sensorReadings
      let frame := writeU64Le frame 0 message.snapshot.uptimeMs (by decide)
      let frame := { frame with payload := frame.payload.set 8 encodedMode }
      let frame := writeU16Le frame 9 readings.batteryMv (by decide)
      let frame := writeU16Le frame 11 readings.boardTemperatureCentiC.toUInt16 (by decide)
      let frame := writeU16Le frame 13 readings.solarCurrentMa (by decide)
      let frame := writeU32Le frame 15 message.latchedFaultMask (by decide)
      let encoded := encode frame
      { status := if encoded.ok then .ok else .frameEncodeFailure
        frameStatus := encoded.status
        frame := encoded.frame }

def decodeTelemetry (bytes : List UInt8) : TelemetryDecodeResult :=
  let decoded := decode bytes
  let frameStatus := decoded.status
  if ¬ decoded.ok then { status := .frameDecodeFailure, frameStatus }
  -- the type of the frame is not looked at
  else if decoded.frame.payloadLength ≠ telemetryPayloadSize then
    { status := .incorrectPayloadLength, frameStatus }
  else
    match decodeFlightMode decoded.frame.payload[8] with
    | none => { status := .invalidFlightMode, frameStatus }
    | some flightMode =>
      let faultMask := readU32Le decoded.frame 15 (by decide)
      if faultMask &&& ~~~knownFaultMask ≠ 0 then { status := .unknownFaultBits, frameStatus }
      else
        { frameStatus
          message :=
            { snapshot :=
                { sequence := decoded.frame.sequence
                  uptimeMs := readU64Le decoded.frame 0 (by decide)
                  flightMode
                  sensorReadings :=
                    { batteryMv := readU16Le decoded.frame 9 (by decide)
                      boardTemperatureCentiC :=
                        decodeTemperature (readU16Le decoded.frame 11 (by decide))
                      solarCurrentMa := readU16Le decoded.frame 13 (by decide) } }
              latchedFaultMask := faultMask } }

end ApogeeFC.Codec
