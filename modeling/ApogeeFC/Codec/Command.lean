import ApogeeFC.Codec.Frame

/-!
# The command codec

Model of `command_codec.hpp`: commands and their acknowledgements, each carried in the payload of one
frame. A payload starts with the command byte; a period command goes on with the period, an
acknowledgement with its status byte.
-/

namespace ApogeeFC.Codec
open Buffer LittleEndian

inductive CommandId where
  | ping
  | enterSafeMode
  | setTelemetryPeriod
  | unnamed
  deriving DecidableEq, Repr

/-- One of the enumerators. -/
def CommandId.Named (command : CommandId) : Prop := command ≠ .unnamed

instance (command : CommandId) : Decidable command.Named := inferInstanceAs (Decidable (_ ≠ _))

inductive CommandAckStatus where
  | accepted
  | invalidCommand
  | invalidArgument
  | rejectedByState
  | unnamed
  deriving DecidableEq, Repr

/-- One of the enumerators. -/
def CommandAckStatus.Named (status : CommandAckStatus) : Prop := status ≠ .unnamed

structure CommandMessage where
  sequence : UInt32 := 0
  command : CommandId := .ping
  periodMs : UInt32 := 0
  deriving DecidableEq, Repr

structure CommandAckMessage where
  sequence : UInt32 := 0
  command : CommandId := .ping
  status : CommandAckStatus := .accepted
  deriving DecidableEq, Repr

inductive CommandEncodeStatus where
  | ok
  | unknownCommand
  | frameEncodeFailure
  deriving DecidableEq, Repr

structure CommandEncodeResult where
  status : CommandEncodeStatus := .ok
  frameStatus : EncodeStatus := .ok
  frame : EncodedFrame := {}
  deriving DecidableEq, Repr

def CommandEncodeResult.ok (result : CommandEncodeResult) : Bool := result.status = .ok

inductive CommandDecodeStatus where
  | ok
  | frameDecodeFailure
  | incorrectMessageType
  | invalidPayloadLength
  | unknownCommand
  deriving DecidableEq, Repr

structure CommandDecodeResult where
  status : CommandDecodeStatus := .ok
  frameStatus : DecodeStatus := .ok
  message : CommandMessage := {}
  deriving DecidableEq, Repr

def CommandDecodeResult.ok (result : CommandDecodeResult) : Bool := result.status = .ok

inductive CommandAckEncodeStatus where
  | ok
  | unknownCommand
  | unknownStatus
  | frameEncodeFailure
  deriving DecidableEq, Repr

structure CommandAckEncodeResult where
  status : CommandAckEncodeStatus := .ok
  frameStatus : EncodeStatus := .ok
  frame : EncodedFrame := {}
  deriving DecidableEq, Repr

def CommandAckEncodeResult.ok (result : CommandAckEncodeResult) : Bool := result.status = .ok

inductive CommandAckDecodeStatus where
  | ok
  | frameDecodeFailure
  | incorrectMessageType
  | invalidPayloadLength
  | unknownCommand
  | unknownStatus
  deriving DecidableEq, Repr

structure CommandAckDecodeResult where
  status : CommandAckDecodeStatus := .ok
  frameStatus : DecodeStatus := .ok
  message : CommandAckMessage := {}
  deriving DecidableEq, Repr

def CommandAckDecodeResult.ok (result : CommandAckDecodeResult) : Bool := result.status = .ok

namespace CommandDetail

def encodeCommand : CommandId → Option UInt8
  | .ping => some 0x01
  | .enterSafeMode => some 0x02
  | .setTelemetryPeriod => some 0x03
  | .unnamed => none

def decodeCommand (encoded : UInt8) : Option CommandId :=
  match encoded with
  | 0x01 => some .ping
  | 0x02 => some .enterSafeMode
  | 0x03 => some .setTelemetryPeriod
  | _ => none

def encodeAckStatus : CommandAckStatus → Option UInt8
  | .accepted => some 0
  | .invalidCommand => some 1
  | .invalidArgument => some 2
  | .rejectedByState => some 3
  | .unnamed => none

def decodeAckStatus (encoded : UInt8) : Option CommandAckStatus :=
  match encoded with
  | 0 => some .accepted
  | 1 => some .invalidCommand
  | 2 => some .invalidArgument
  | 3 => some .rejectedByState
  | _ => none

def writeU32Le (frame : Frame) (offset : Nat) (value : UInt32)
    (h : offset + 4 ≤ maximumPayloadSize) : Frame :=
  { frame with payload := fill frame.payload offset (bytes32 value) h }

def readU32Le (frame : Frame) (offset : Nat) (h : offset + 4 ≤ maximumPayloadSize) : UInt32 :=
  have h64 : offset + 4 ≤ 64 := h
  word32 frame.payload[offset] frame.payload[offset + 1] frame.payload[offset + 2]
    frame.payload[offset + 3]

end CommandDetail

def encodeCommand (message : CommandMessage) : CommandEncodeResult :=
  match CommandDetail.encodeCommand message.command with
  | none => { status := .unknownCommand }
  | some commandId =>
    let frame : Frame := {}
    let frame := { frame with messageType := .command, sequence := message.sequence }
    let frame := { frame with payload := frame.payload.set 0 commandId, payloadLength := 1 }
    let frame :=
      if message.command = .setTelemetryPeriod then
        CommandDetail.writeU32Le { frame with payloadLength := 5 } 1 message.periodMs (by decide)
      else frame
    let encoded := encode frame
    { status := if encoded.ok then .ok else .frameEncodeFailure
      frameStatus := encoded.status
      frame := encoded.frame }

def decodeCommand (bytes : List UInt8) : CommandDecodeResult :=
  let decoded := decode bytes
  let frameStatus := decoded.status
  if ¬ decoded.ok then { status := .frameDecodeFailure, frameStatus }
  else if decoded.frame.messageType ≠ .command then { status := .incorrectMessageType, frameStatus }
  else if decoded.frame.payloadLength < 1 then { status := .invalidPayloadLength, frameStatus }
  else
    match CommandDetail.decodeCommand decoded.frame.payload[0] with
    | none => { status := .unknownCommand, frameStatus }
    | some command =>
      let requiredLength : UInt16 := if command = .setTelemetryPeriod then 5 else 1
      if decoded.frame.payloadLength ≠ requiredLength then
        { status := .invalidPayloadLength, frameStatus }
      else
        { frameStatus
          message :=
            { sequence := decoded.frame.sequence
              command
              periodMs :=
                if command = .setTelemetryPeriod then
                  CommandDetail.readU32Le decoded.frame 1 (by decide)
                else 0 } }

def encodeCommandAck (message : CommandAckMessage) : CommandAckEncodeResult :=
  match CommandDetail.encodeCommand message.command with
  | none => { status := .unknownCommand }
  | some commandId =>
    match CommandDetail.encodeAckStatus message.status with
    | none => { status := .unknownStatus }
    | some status =>
      let frame : Frame := {}
      let frame :=
        { frame with messageType := .commandAck, payloadLength := 2, sequence := message.sequence }
      let frame := { frame with payload := frame.payload.set 0 commandId }
      let frame := { frame with payload := frame.payload.set 1 status }
      let encoded := encode frame
      { status := if encoded.ok then .ok else .frameEncodeFailure
        frameStatus := encoded.status
        frame := encoded.frame }

def decodeCommandAck (bytes : List UInt8) : CommandAckDecodeResult :=
  let decoded := decode bytes
  let frameStatus := decoded.status
  if ¬ decoded.ok then { status := .frameDecodeFailure, frameStatus }
  else if decoded.frame.messageType ≠ .commandAck then
    { status := .incorrectMessageType, frameStatus }
  else if decoded.frame.payloadLength ≠ 2 then { status := .invalidPayloadLength, frameStatus }
  else
    match CommandDetail.decodeCommand decoded.frame.payload[0] with
    | none => { status := .unknownCommand, frameStatus }
    | some command =>
      match CommandDetail.decodeAckStatus decoded.frame.payload[1] with
      -- the command is already stored when the status turns out to be unknown
      | none => { status := .unknownStatus, frameStatus, message := { command } }
      | some status =>
        { frameStatus, message := { sequence := decoded.frame.sequence, command, status } }

end ApogeeFC.Codec
