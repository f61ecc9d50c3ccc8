import ApogeeFC.Lib.Buffer
import ApogeeFC.Lib.LittleEndian

/-!
# The frame codec

Model of `frame_codec.hpp`. A frame on the wire is

  `A5 5A | version | type | length (u16) | sequence (u32) | payload | crc (u16)`

with every word little-endian and the CRC taken over everything between the sync pair and itself.
Arrays are `Vector`s of the capacity the source gives them and every access carries the proof that it
is in bounds. The functions that return `bool` and write through a reference return an `Option`.

An `enum class` can hold values outside its enumerators (a `static_cast` makes them, and the codec's
`switch`es have a path for them); such a value is the constructor `unnamed`.
-/

namespace ApogeeFC.Codec
open Buffer LittleEndian

abbrev protocolVersion : UInt8 := 1
abbrev maximumPayloadSize : Nat := 64
abbrev maximumFrameSize : Nat := 76
abbrev minimumFrameSize : Nat := 12

inductive MessageType where
  | telemetry
  | command
  | commandAck
  | unnamed
  deriving DecidableEq, Repr

/-- One of the enumerators. -/
def MessageType.Named (type : MessageType) : Prop := type ≠ .unnamed

structure Frame where
  version : UInt8 := protocolVersion
  messageType : MessageType := .telemetry
  payloadLength : UInt16 := 0
  sequence : UInt32 := 0
  payload : Vector UInt8 maximumPayloadSize := Vector.replicate maximumPayloadSize 0
  deriving DecidableEq, Repr

structure EncodedFrame where
  bytes : Vector UInt8 maximumFrameSize := Vector.replicate maximumFrameSize 0
  size : Nat := 0
  deriving DecidableEq, Repr

/-- `bytes[0..size)`, what a link transmits. -/
def EncodedFrame.view (frame : EncodedFrame) : List UInt8 := contents frame.bytes frame.size

inductive EncodeStatus where
  | ok
  | unsupportedVersion
  | unsupportedMessageType
  | payloadTooLarge
  deriving DecidableEq, Repr

structure EncodeResult where
  status : EncodeStatus := .ok
  frame : EncodedFrame := {}
  deriving DecidableEq, Repr

def EncodeResult.ok (result : EncodeResult) : Bool := result.status = .ok

inductive DecodeStatus where
  | ok
  | truncated
  | badSync
  | unsupportedVersion
  | unsupportedMessageType
  | payloadTooLarge
  | lengthMismatch
  | crcMismatch
  deriving DecidableEq, Repr

structure DecodeResult where
  status : DecodeStatus := .ok
  frame : Frame := {}
  deriving DecidableEq, Repr

def DecodeResult.ok (result : DecodeResult) : Bool := result.status = .ok

/-- One round of the inner loop of `crc16_ccitt_false`. -/
def crcBit (crc : UInt16) : UInt16 :=
  if crc &&& 0x8000 ≠ 0 then (crc <<< 1) ^^^ 0x1021 else crc <<< 1

/-- One round of the outer loop of `crc16_ccitt_false`. -/
def crcByte (crc : UInt16) (byte : UInt8) : UInt16 :=
  Nat.iterate crcBit 8 (crc ^^^ (byte.toUInt16 <<< 8))

def crc16CcittFalse (bytes : List UInt8) : UInt16 := bytes.foldl crcByte 0xFFFF

namespace Detail

def encodeMessageType : MessageType → Option UInt8
  | .telemetry => some 0x01
  | .command => some 0x10
  | .commandAck => some 0x11
  | .unnamed => none

def decodeMessageType (encoded : UInt8) : Option MessageType :=
  match encoded with
  | 0x01 => some .telemetry
  | 0x10 => some .command
  | 0x11 => some .commandAck
  | _ => none

def writeU16Le (bytes : Vector UInt8 maximumFrameSize) (offset : Nat) (value : UInt16)
    (h : offset + 2 ≤ maximumFrameSize) : Vector UInt8 maximumFrameSize :=
  fill bytes offset (bytes16 value) h

def writeU32Le (bytes : Vector UInt8 maximumFrameSize) (offset : Nat) (value : UInt32)
    (h : offset + 4 ≤ maximumFrameSize) : Vector UInt8 maximumFrameSize :=
  fill bytes offset (bytes32 value) h

def readU16Le (bytes : List UInt8) (offset : Nat) (h : offset + 2 ≤ bytes.length) : UInt16 :=
  word16 bytes[offset] bytes[offset + 1]

def readU32Le (bytes : List UInt8) (offset : Nat) (h : offset + 4 ≤ bytes.length) : UInt32 :=
  word32 bytes[offset] bytes[offset + 1] bytes[offset + 2] bytes[offset + 3]

end Detail

open Detail

def encode (input : Frame) : EncodeResult :=
  if input.version ≠ protocolVersion then { status := .unsupportedVersion }
  else
    match encodeMessageType input.messageType with
    | none => { status := .unsupportedMessageType }
    | some encodedMessageType =>
      let length := input.payloadLength.toNat
      if h : maximumPayloadSize < length then { status := .payloadTooLarge }
      else
        have hlen : length ≤ 64 := Nat.le_of_not_lt h
        let bytes : Vector UInt8 maximumFrameSize := Vector.replicate maximumFrameSize 0
        let bytes := bytes.set 0 0xA5
        let bytes := bytes.set 1 0x5A
        let bytes := bytes.set 2 input.version
        let bytes := bytes.set 3 encodedMessageType
        let bytes := writeU16Le bytes 4 input.payloadLength (by decide)
        let bytes := writeU32Le bytes 6 input.sequence (by decide)
        let bytes := fill bytes 10 (span input.payload 0 length) (by
          rw [length_span]
          show 10 + min length (64 - 0) ≤ 76
          omega)
        let crcOffset := 10 + length
        let crc := crc16CcittFalse (span bytes 2 (8 + length))
        let bytes := writeU16Le bytes crcOffset crc (by
          show 10 + length + 2 ≤ 76
          omega)
        { frame := { bytes, size := crcOffset + 2 } }

def decode (bytes : List UInt8) : DecodeResult :=
  if h : bytes.length < minimumFrameSize then { status := .truncated }
  else
    have hmin : 12 ≤ bytes.length := Nat.le_of_not_lt h
    if bytes[0] ≠ 0xA5 ∨ bytes[1] ≠ 0x5A then { status := .badSync }
    else if bytes[2] ≠ protocolVersion then { status := .unsupportedVersion }
    else
      match decodeMessageType bytes[3] with
      | none => { status := .unsupportedMessageType }
      | some messageType =>
        let payloadLength := readU16Le bytes 4 (by omega)
        let length := payloadLength.toNat
        if hmax : maximumPayloadSize < length then { status := .payloadTooLarge }
        else if bytes.length < minimumFrameSize + length then { status := .truncated }
        else if hlen : bytes.length ≠ minimumFrameSize + length then { status := .lengthMismatch }
        else
          have hsize : bytes.length = 12 + length := Decidable.not_not.mp hlen
          have hfits : length ≤ 64 := Nat.le_of_not_lt hmax
          let crcOffset := 10 + length
          let expectedCrc := readU16Le bytes crcOffset (by omega)
          let actualCrc := crc16CcittFalse ((bytes.drop 2).take (8 + length))
          if actualCrc ≠ expectedCrc then { status := .crcMismatch }
          else
            { frame :=
              { version := bytes[2]
                messageType
                payloadLength
                sequence := readU32Le bytes 6 (by omega)
                payload := fill (Vector.replicate maximumPayloadSize 0) 0
                  ((bytes.drop 10).take length) (by simp; omega) } }

end ApogeeFC.Codec
