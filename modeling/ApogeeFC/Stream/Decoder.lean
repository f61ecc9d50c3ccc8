import ApogeeFC.Codec.Frame
import ApogeeFC.Lib.Mealy

/-!
# The frame stream decoder

Model of `frame_stream_decoder.hpp`, with the buffer as the array it is. Every access through an
index or a range is checked and fails with `none` where the source would leave the array, and so does
a loop of `process_buffer` that does not end; that none of this happens is proved, not assumed.

A handler is called synchronously and cannot reach into the decoder, so each operation returns the
calls it makes. A call records the event and what `buffered_size()` returns while the handler runs:
the pending bytes are the last ones of the stream, so this is where in the stream the event belongs.
-/

namespace ApogeeFC.Stream
open Buffer LittleEndian Codec

abbrev syncFirst : UInt8 := 0xA5
abbrev syncSecond : UInt8 := 0x5A
abbrev headerSize : Nat := 6

inductive FrameStreamStatus where
  | frameDecoded
  | noiseDiscarded
  | frameRejected
  | truncated
  deriving DecidableEq, Repr

structure FrameStreamEvent where
  status : FrameStreamStatus := .frameDecoded
  decodeStatus : DecodeStatus := .ok
  frame : EncodedFrame := {}
  discardedBytes : Nat := 0
  deriving DecidableEq, Repr

/-- One call of the handler. -/
structure HandlerCall where
  event : FrameStreamEvent
  bufferedSize : Nat
  deriving DecidableEq, Repr

structure FrameStreamDecoder where
  buffer : Vector UInt8 maximumFrameSize := Vector.replicate maximumFrameSize 0
  size : Nat := 0
  expectedSize : Nat := 0
  deriving DecidableEq, Repr

namespace FrameStreamDecoder

def bufferedSize (d : FrameStreamDecoder) : Nat := d.size

/-- The pending bytes, `buffer_[0..size_)`. -/
def pending (d : FrameStreamDecoder) : List UInt8 := contents d.buffer d.size

/-- `handler(event)`. -/
def call (d : FrameStreamDecoder) (event : FrameStreamEvent) : HandlerCall :=
  { event, bufferedSize := d.bufferedSize }

def emitNoise (d : FrameStreamDecoder) (count : Nat) : HandlerCall :=
  d.call { status := .noiseDiscarded, discardedBytes := count }

/-- `buffer_[size_++] = byte`. -/
def append (d : FrameStreamDecoder) (byte : UInt8) : Option FrameStreamDecoder := do
  let buffer ← write d.buffer d.size byte
  some { d with buffer, size := d.size + 1 }

def copyFrame (d : FrameStreamDecoder) : Option EncodedFrame := do
  let bytes ← copyN d.buffer 0 d.size (Vector.replicate maximumFrameSize 0)
  some { bytes, size := d.size }

/-- `buffer_[size_ - 1]`, out of bounds when the buffer is empty. -/
def last (d : FrameStreamDecoder) : Option UInt8 :=
  if d.size = 0 then none else read d.buffer (d.size - 1)

/-- The search for a sync pair in `rescan` and `align_to_sync`, for the given number of rounds of the
`for` loop: the offset of the first pair from `index` on, or `size_`. -/
def syncOffset (d : FrameStreamDecoder) (index : Nat) : Nat → Option Nat
  | 0 => some d.size
  | rounds + 1 => do
    let first ← read d.buffer index
    let second ← read d.buffer (index + 1)
    if first = syncFirst ∧ second = syncSecond then some index
    else d.syncOffset (index + 1) rounds

/-- Move the bytes from `offset` on to the front of the buffer. -/
def retain (d : FrameStreamDecoder) (offset : Nat) : Option FrameStreamDecoder := do
  let buffer ← copyN d.buffer offset (d.size - offset) d.buffer
  some { d with buffer, size := d.size - offset }

/-- `buffer_[0] = sync_first; size_ = 1`. -/
def keepSyncFirst (d : FrameStreamDecoder) : Option FrameStreamDecoder := do
  let buffer ← write d.buffer 0 syncFirst
  some { d with buffer, size := 1 }

def rescan (d : FrameStreamDecoder) : Option FrameStreamDecoder := do
  -- the first byte of the candidate goes in any case; what is dropped is not reported as noise
  let offset ← d.syncOffset 1 (d.size - 1 - 1)
  let d ←
    if offset < d.size then d.retain offset
    else do
      let byte ← d.last
      if byte = syncFirst then d.keepSyncFirst else some { d with size := 0 }
  some { d with expectedSize := 0 }

def reject (d : FrameStreamDecoder) (status : DecodeStatus) :
    Option (FrameStreamDecoder × List HandlerCall) := do
  let frame ← d.copyFrame
  let call := d.call { status := .frameRejected, decodeStatus := status, frame }
  let d ← d.rescan
  some (d, [call])

def alignToSync (d : FrameStreamDecoder) : Option (FrameStreamDecoder × List HandlerCall) :=
  if d.size = 0 then some (d, [])
  else do
    let offset ← d.syncOffset 0 (d.size - 1 - 0)
    if offset < d.size then
      if 0 < offset then do
        let call := d.emitNoise offset
        let d ← d.retain offset
        some (d, [call])
      else some (d, [])
    else do
      -- a trailing `A5` may be half of a sync pair
      let byte ← d.last
      if byte = syncFirst then do
        let call := d.emitNoise (d.size - 1)
        let d ← d.keepSyncFirst
        some (d, [call])
      else some ({ d with size := 0 }, [d.emitNoise d.size])

/-- Deliver the frame of `expected_size_` bytes at the front of the buffer and drop it. -/
def deliver (d : FrameStreamDecoder) : Option (FrameStreamDecoder × List HandlerCall) := do
  let frame ← d.copyFrame
  -- the copy is of the whole buffer, cut to the frame by its size
  let call := d.call { status := .frameDecoded, frame := { frame with size := d.expectedSize } }
  let d ← d.retain d.expectedSize
  let (d, calls) ← { d with expectedSize := 0 }.alignToSync
  some (d, call :: calls)

/-- One round of the loop of `process_buffer`; the flag says whether it goes round again. -/
def processRound (d : FrameStreamDecoder) :
    Option (Bool × FrameStreamDecoder × List HandlerCall) :=
  if d.size < headerSize then some (false, d, [])
  else do
    let low ← read d.buffer 4
    let high ← read d.buffer 5
    let payloadLength := (word16 low high).toNat
    if maximumPayloadSize < payloadLength then do
      let (d, calls) ← d.reject .payloadTooLarge
      some (decide (headerSize ≤ d.size), d, calls)
    else
      let d := { d with expectedSize := minimumFrameSize + payloadLength }
      if d.size < d.expectedSize then some (false, d, [])
      else do
        let candidate ← slice d.buffer d.expectedSize
        if (decode candidate).ok then do
          let (d, calls) ← d.deliver
          some (decide (headerSize ≤ d.size), d, calls)
        else do
          let (d, calls) ← d.reject (decode candidate).status
          some (decide (headerSize ≤ d.size), d, calls)

/-- The loop of `process_buffer`, for at most the given number of rounds. -/
def processBuffer : Nat → FrameStreamDecoder → Option (FrameStreamDecoder × List HandlerCall)
  | 0, _ => none
  | rounds + 1, d => do
    let (again, d, calls) ← d.processRound
    if again then do
      let (d, more) ← processBuffer rounds d
      some (d, calls ++ more)
    else some (d, calls)

def pushByte (d : FrameStreamDecoder) (byte : UInt8) :
    Option (FrameStreamDecoder × List HandlerCall) :=
  if d.size = 0 then
    if byte = syncFirst then do
      let d ← d.append byte
      some (d, [])
    else some (d, [d.emitNoise 1])
  else if d.size = 1 then
    if byte = syncSecond then do
      let d ← d.append byte
      some (d, [])
    else if byte = syncFirst then some (d, [d.emitNoise 1])
    else
      let d := { d with size := 0 }
      some (d, [d.emitNoise 2])
  else do
    let d ← d.append byte
    -- every round that goes round again shortens the buffer
    processBuffer (d.size + 1) d

def push (d : FrameStreamDecoder) (bytes : List UInt8) :
    Option (FrameStreamDecoder × List HandlerCall) :=
  Mealy.run pushByte d bytes

def finish (d : FrameStreamDecoder) : Option (FrameStreamDecoder × List HandlerCall) :=
  if d.size = 0 then some (d, [])
  else do
    let frame ← d.copyFrame
    let call := d.call { status := .truncated, decodeStatus := .truncated, frame }
    some ({ d with size := 0, expectedSize := 0 }, [call])

end FrameStreamDecoder

end ApogeeFC.Stream
