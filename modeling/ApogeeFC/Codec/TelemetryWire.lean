import ApogeeFC.Codec.FrameWire
import ApogeeFC.Codec.Telemetry

/-!
# The telemetry codec is a bijection on telemetry frames

`telemetryPayload` is the layout of a telemetry payload. `encodeTelemetry` writes it
(`encodeTelemetry_wire`); `decodeTelemetry` accepts it in a frame of any type and accepts nothing else
(`decodeTelemetry_wire`, `decodeTelemetry_inv`).
-/

namespace ApogeeFC.Codec
open Buffer LittleEndian Detail Flight TelemetryDetail

/-- The message can be encoded: its mode is an enumerator and its mask has no unknown bits. -/
structure TelemetryMessage.Valid (message : TelemetryMessage) : Prop where
  mode : message.snapshot.flightMode ≠ .unnamed
  mask : message.latchedFaultMask &&& ~~~knownFaultMask = 0

/-- The bits of the three faults are known. -/
lemma known_of_lt {mask : UInt8} (h : mask.toNat < 8) : mask.toUInt32 &&& ~~~knownFaultMask = 0 := by
  have hall : ∀ n < 8, (UInt8.ofNat n).toUInt32 &&& ~~~knownFaultMask = 0 := by decide
  have hm := hall mask.toNat h
  rwa [UInt8.ofNat_toNat] at hm

/-- The payload of telemetry. -/
def telemetryPayload (message : TelemetryMessage) : List UInt8 :=
  let readings := message.snapshot.sensorReadings
  bytesLoop 8 message.snapshot.uptimeMs.toBitVec ++
    (encodeFlightMode message.snapshot.flightMode).toList ++ bytes16 readings.batteryMv ++
    bytes16 readings.boardTemperatureCentiC.toUInt16 ++ bytes16 readings.solarCurrentMa ++
    bytesLoop 4 message.latchedFaultMask.toBitVec

/-- The mode byte determines the mode. -/
lemma decodeFlightMode_encode {mode : FlightMode} {c} (h : encodeFlightMode mode = some c) :
    decodeFlightMode c = some mode := by
  cases mode <;> simp [encodeFlightMode] at h <;> subst h <;> rfl

/-- Only the bytes of the enumerators decode. -/
lemma encodeFlightMode_decode {mode : FlightMode} {c} (h : decodeFlightMode c = some mode) :
    encodeFlightMode mode = some c := by
  unfold decodeFlightMode at h
  split at h
  all_goals first | cases h; rfl | cases h

lemma named_of_encodeFlightMode {mode : FlightMode} {c} (h : encodeFlightMode mode = some c) :
    mode ≠ .unnamed := by
  intro e
  subst e
  cases h

lemma TelemetryMessage.Valid.encode {message : TelemetryMessage} (h : message.Valid) :
    ∃ c, encodeFlightMode message.snapshot.flightMode = some c := by
  cases hm : message.snapshot.flightMode with
  | unnamed => exact absurd hm h.mode
  | _ => exact ⟨_, rfl⟩

/-- The two branches of `decode_temperature` are one two's complement conversion. -/
lemma decodeTemperature_eq (v : UInt16) : decodeTemperature v = v.toInt16 := by
  rw [decodeTemperature]
  split
  case isTrue => rfl
  case isFalse =>
    apply Int16.toBitVec_inj.mp
    simp

section
variable (frame : Frame) (offset : Nat)

lemma contents_payloadU16 (value h) :
    contents (TelemetryDetail.writeU16Le frame offset value h).payload (offset + 2) =
      contents frame.payload offset ++ bytes16 value :=
  contents_fill _ _ (bytes16 value) h

/-- A word that is written by a loop over its bytes. -/
lemma contents_loop {w k : Nat} (value : BitVec w) (h : offset + k ≤ maximumPayloadSize) :
    contents (fill frame.payload offset (bytesLoop k value) (by rwa [length_bytesLoop]))
      (offset + k) = contents frame.payload offset ++ bytesLoop k value := by
  have hc := contents_fill frame.payload offset (bytesLoop k value) (by rwa [length_bytesLoop])
  simp only [length_bytesLoop] at hc
  exact hc

lemma contents_payloadU32 (value h) :
    contents (TelemetryDetail.writeU32Le frame offset value h).payload (offset + 4) =
      contents frame.payload offset ++ bytesLoop 4 value.toBitVec :=
  contents_loop frame offset value.toBitVec h

lemma contents_payloadU64 (value h) :
    contents (writeU64Le frame offset value h).payload (offset + 8) =
      contents frame.payload offset ++ bytesLoop 8 value.toBitVec :=
  contents_loop frame offset value.toBitVec h

end

/-- What `encode_telemetry` writes. -/
lemma encodeTelemetry_wire {message : TelemetryMessage} (h : message.Valid) :
    (encodeTelemetry message).ok ∧ (encodeTelemetry message).frame.view =
      wire 0x01 message.snapshot.sequence (telemetryPayload message) := by
  obtain ⟨c, hc⟩ := h.encode
  rw [encodeTelemetry, telemetryPayload, hc, Option.toList_some]
  simp only [ne_eq, h.mask, not_true_eq_false, if_false]
  generalize hf : TelemetryDetail.writeU32Le _ 15 _ _ = frame
  have hv : frame.version = protocolVersion := by
    rw [← hf]
    rfl
  have ht : encodeMessageType frame.messageType = some 0x01 := by
    rw [← hf]
    rfl
  have hl : frame.payloadLength = telemetryPayloadSize := by
    rw [← hf]
    rfl
  have hs : frame.sequence = message.snapshot.sequence := by
    rw [← hf]
    rfl
  obtain ⟨hok, hview⟩ := encode_wire hv ht (by rw [hl]; decide)
  have hp : frame.payloadBytes = bytesLoop 8 message.snapshot.uptimeMs.toBitVec ++ [c] ++
      bytes16 message.snapshot.sensorReadings.batteryMv ++
      bytes16 message.snapshot.sensorReadings.boardTemperatureCentiC.toUInt16 ++
      bytes16 message.snapshot.sensorReadings.solarCurrentMa ++
      bytesLoop 4 message.latchedFaultMask.toBitVec := by
    -- from the last field to the first: each write leaves what is before it
    rw [Frame.payloadBytes, hl, ← hf]
    change contents _ (15 + 4) = _
    rw [contents_payloadU32]
    change contents _ (13 + 2) ++ _ = _
    rw [contents_payloadU16]
    change contents _ (11 + 2) ++ _ ++ _ = _
    rw [contents_payloadU16]
    change contents _ (9 + 2) ++ _ ++ _ ++ _ = _
    rw [contents_payloadU16]
    change contents _ (8 + 1) ++ _ ++ _ ++ _ ++ _ = _
    rw [contents_set]
    change contents _ (0 + 8) ++ _ ++ _ ++ _ ++ _ ++ _ = _
    rw [contents_payloadU64, contents_zero, List.nil_append]
  rw [if_pos hok, hview, hs, hp]
  exact ⟨rfl, rfl⟩

/-- A range of the payload of a decoded frame. -/
lemma span_decodedFrame {type seq p h} {offset count : Nat} (ho : offset + count ≤ p.length) :
    span (decodedFrame type seq p h).payload offset count = (p.drop offset).take count := by
  have hc := contents_fill (Vector.replicate maximumPayloadSize 0) 0 p h
  rw [Nat.zero_add, contents_zero, List.nil_append] at hc
  rw [span_eq, decodedFrame, ← take_contents ho, hc, List.drop_take, Nat.add_sub_cancel_left]

/-- A field of two bytes in the payload of a decoded frame. -/
lemma readU16Le_decodedFrame {type seq p hp} {offset : Nat} {b0 b1 : UInt8}
    (h0 : p[offset]? = some b0) (h1 : p[offset + 1]? = some b1)
    (ho : offset + 2 ≤ maximumPayloadSize) :
    TelemetryDetail.readU16Le (decodedFrame type seq p hp) offset ho = word16 b0 b1 := by
  obtain ⟨hlt0, e0⟩ := List.getElem?_eq_some_iff.mp h0
  obtain ⟨hlt1, e1⟩ := List.getElem?_eq_some_iff.mp h1
  rw [TelemetryDetail.readU16Le, getElem_decodedFrame hlt0, getElem_decodedFrame hlt1, e0, e1]

/-- The message with the given field bytes. -/
def telemetryFields (seq : UInt32) (u : List UInt8) (mode : FlightMode)
    (b0 b1 t0 t1 s0 s1 : UInt8) (f : List UInt8) : TelemetryMessage where
  snapshot :=
    { sequence := seq
      uptimeMs := .ofBitVec (wordLoop 0 0 u)
      flightMode := mode
      sensorReadings :=
        { batteryMv := word16 b0 b1
          boardTemperatureCentiC := (word16 t0 t1).toInt16
          solarCurrentMa := word16 s0 s1 } }
  latchedFaultMask := .ofBitVec (wordLoop 0 0 f)

/-- `decode_telemetry` on an intact frame with 19 payload bytes, whatever its type. -/
lemma decodeTelemetry_frame {b type seq p hp u m b0 b1 t0 t1 s0 s1 f}
    (hd : decode b = { frame := decodedFrame type seq p hp }) (hu : u.length = 8)
    (hf : f.length = 4) (e : p = u ++ ([m, b0, b1, t0, t1, s0, s1] ++ f)) :
    decodeTelemetry b = match decodeFlightMode m with
      | none => { status := .invalidFlightMode }
      | some mode =>
        if UInt32.ofBitVec (wordLoop 0 0 f) &&& ~~~knownFaultMask ≠ 0 then
          { status := .unknownFaultBits }
        else { message := telemetryFields seq u mode b0 b1 t0 t1 s0 s1 f } := by
  have hlen : p.length = 19 := by
    rw [e]
    simp [hu, hf]
  have hpl : (decodedFrame type seq p hp).payloadLength = telemetryPayloadSize := by
    rw [payloadLength_decodedFrame, hlen]
    rfl
  have hmask : TelemetryDetail.readU32Le (decodedFrame type seq p hp) 15
      (Nat.le_of_ble_eq_true rfl) = .ofBitVec (wordLoop 0 0 f) := by
    have hdrop : p.drop 15 = f := by
      rw [e, ← List.append_assoc]
      exact List.drop_left' (by simp [hu])
    rw [TelemetryDetail.readU32Le, span_decodedFrame (by omega), hdrop,
      List.take_of_length_le (Nat.le_of_eq hf)]
  have hup : readU64Le (decodedFrame type seq p hp) 0 (Nat.le_of_ble_eq_true rfl) =
      .ofBitVec (wordLoop 0 0 u) := by
    rw [readU64Le, span_decodedFrame (by omega), e, List.drop_zero, ← hu, List.take_left]
  have hmode : (decodedFrame type seq p hp).payload[8] = m := by
    rw [getElem_decodedFrame (by omega)]
    simp [e, hu]
  have hfield : ∀ i, p[8 + i]? = ([m, b0, b1, t0, t1, s0, s1] ++ f)[i]? := by
    intro i
    rw [e, List.getElem?_append_right (by omega), hu, Nat.add_sub_cancel_left]
  have hbat : TelemetryDetail.readU16Le (decodedFrame type seq p hp) 9 (Nat.le_of_ble_eq_true rfl) =
      word16 b0 b1 := readU16Le_decodedFrame (hfield 1) (hfield 2) _
  have htemp : TelemetryDetail.readU16Le (decodedFrame type seq p hp) 11
      (Nat.le_of_ble_eq_true rfl) = word16 t0 t1 := readU16Le_decodedFrame (hfield 3) (hfield 4) _
  have hsol : TelemetryDetail.readU16Le (decodedFrame type seq p hp) 13
      (Nat.le_of_ble_eq_true rfl) = word16 s0 s1 := readU16Le_decodedFrame (hfield 5) (hfield 6) _
  rw [decodeTelemetry, hd]
  simp only [ok_decodeResult, not_true_eq_false, if_false, hpl, ne_eq, hmode, hmask, hup, hbat,
    htemp, hsol, decodeTemperature_eq, sequence_decodedFrame]
  rfl

lemma length_telemetryPayload {message : TelemetryMessage} (h : message.Valid) :
    (telemetryPayload message).length = 19 := by
  obtain ⟨m, hm⟩ := h.encode
  simp only [telemetryPayload, hm, Option.toList_some, List.length_append, length_bytesLoop,
    length_bytes16, List.length_singleton]

/-- `decode_telemetry` accepts the layout of telemetry, in a frame of any type, and reads it back. -/
lemma decodeTelemetry_wire {message : TelemetryMessage} (h : message.Valid) {type t}
    (ht : decodeMessageType t = some type) :
    decodeTelemetry (wire t message.snapshot.sequence (telemetryPayload message)) = { message } := by
  obtain ⟨m, hm⟩ := h.encode
  obtain ⟨b0, b1, hb⟩ : ∃ b0 b1, bytes16 message.snapshot.sensorReadings.batteryMv = [b0, b1] :=
    ⟨_, _, rfl⟩
  obtain ⟨t0, t1, htemp⟩ : ∃ t0 t1,
      bytes16 message.snapshot.sensorReadings.boardTemperatureCentiC.toUInt16 = [t0, t1] :=
    ⟨_, _, rfl⟩
  obtain ⟨s0, s1, hs⟩ : ∃ s0 s1, bytes16 message.snapshot.sensorReadings.solarCurrentMa = [s0, s1] :=
    ⟨_, _, rfl⟩
  have e : telemetryPayload message = bytesLoop 8 message.snapshot.uptimeMs.toBitVec ++
      ([m, b0, b1, t0, t1, s0, s1] ++ bytesLoop 4 message.latchedFaultMask.toBitVec) := by
    simp only [telemetryPayload, hm, hb, htemp, hs, Option.toList_some, List.append_assoc]
    rfl
  have hp : 0 + (telemetryPayload message).length ≤ maximumPayloadSize := by
    rw [length_telemetryPayload h]
    decide
  have hd := @decode_wire type t message.snapshot.sequence _ ht hp
  rw [decodeTelemetry_frame hd (length_bytesLoop ..) (length_bytesLoop ..) e,
    decodeFlightMode_encode hm]
  have hmask : UInt32.ofBitVec (wordLoop 0 0 (bytesLoop 4 message.latchedFaultMask.toBitVec)) =
      message.latchedFaultMask :=
    congrArg UInt32.ofBitVec (wordLoop_bytesLoop 4 _ rfl (by decide))
  have hup : UInt64.ofBitVec (wordLoop 0 0 (bytesLoop 8 message.snapshot.uptimeMs.toBitVec)) =
      message.snapshot.uptimeMs :=
    congrArg UInt64.ofBitVec (wordLoop_bytesLoop 8 _ rfl (by decide))
  have htemp' : (word16 t0 t1).toInt16 = message.snapshot.sensorReadings.boardTemperatureCentiC := by
    rw [word16_bytes16 _ _ _ htemp]
    simp
  simp only [telemetryFields, hmask, hup, htemp', word16_bytes16 _ _ _ hb, word16_bytes16 _ _ _ hs,
    h.mask, ne_eq, not_true_eq_false, if_false]

/-- A list of 19 bytes, cut into the fields of telemetry. -/
lemma split_telemetry {p : List UInt8} (h : p.length = 19) :
    ∃ u m b0 b1 t0 t1 s0 s1 f, u.length = 8 ∧ f.length = 4 ∧
      p = u ++ ([m, b0, b1, t0, t1, s0, s1] ++ f) := by
  match p, h with
  | [u0, u1, u2, u3, u4, u5, u6, u7, m, b0, b1, t0, t1, s0, s1, f0, f1, f2, f3], _ =>
    exact ⟨[u0, u1, u2, u3, u4, u5, u6, u7], m, b0, b1, t0, t1, s0, s1, [f0, f1, f2, f3], rfl, rfl,
      rfl⟩

/-- `decode_telemetry` accepts nothing else. -/
lemma decodeTelemetry_inv {b : List UInt8} (h : (decodeTelemetry b).ok) :
    ∃ type t message, encodeMessageType type = some t ∧ message.Valid ∧
      (decode b).frame.messageType = type ∧
      b = wire t message.snapshot.sequence (telemetryPayload message) := by
  by_cases hok : (decode b).ok
  case neg => simp [decodeTelemetry, hok, TelemetryDecodeResult.ok] at h
  obtain ⟨t, type, seq, p, hp, ht, e, hd⟩ := decode_view hok
  by_cases hlen : p.length = 19
  case neg =>
    have hne : UInt16.ofNat p.length ≠ telemetryPayloadSize := fun he =>
      hlen ((ofNat_length_eq hp).mp he)
    simp [decodeTelemetry, hd, hne, TelemetryDecodeResult.ok] at h
  obtain ⟨u, m, b0, b1, t0, t1, s0, s1, f, hu, hf, ep⟩ := split_telemetry hlen
  rw [decodeTelemetry_frame hd hu hf ep] at h
  cases hm : decodeFlightMode m with
  | none => simp [hm, TelemetryDecodeResult.ok] at h
  | some mode =>
    by_cases hmask : UInt32.ofBitVec (wordLoop 0 0 f) &&& ~~~knownFaultMask = 0
    case neg =>
      simp only [hm, ne_eq, hmask, not_false_eq_true, if_true] at h
      cases h
    have hid := encodeFlightMode_decode hm
    refine ⟨type, t, telemetryFields seq u mode b0 b1 t0 t1 s0 s1 f, ht,
      ⟨named_of_encodeFlightMode hid, hmask⟩, by rw [hd]; rfl, ?_⟩
    have hup : bytesLoop 8 (wordLoop 0 (0 : BitVec 64) u) = u :=
      bytesLoop_wordLoop hu rfl (by decide)
    have hfm : bytesLoop 4 (wordLoop 0 (0 : BitVec 32) f) = f :=
      bytesLoop_wordLoop hf rfl (by decide)
    have htemp : (word16 t0 t1).toInt16.toUInt16 = word16 t0 t1 := by simp
    have hp : telemetryPayload (telemetryFields seq u mode b0 b1 t0 t1 s0 s1 f) = p := by
      rw [telemetryPayload, telemetryFields]
      simp only [hid, Option.toList_some, htemp, bytes16_word16, List.append_assoc, hup, hfm, ep]
      rfl
    exact e.trans (congrArg (wire t seq) hp.symm)

/-- What `encode_telemetry` outputs, `decode_telemetry` reads back. -/
lemma decodeTelemetry_encode {message : TelemetryMessage} (h : message.Valid) :
    (encodeTelemetry message).ok ∧
      decodeTelemetry (encodeTelemetry message).frame.view = { message } := by
  obtain ⟨hok, hview⟩ := encodeTelemetry_wire h
  rw [hview]
  exact ⟨hok, decodeTelemetry_wire h rfl⟩

/-- What `encode_telemetry` outputs is a telemetry frame. -/
lemma decode_encodeTelemetry {message : TelemetryMessage} (h : message.Valid) :
    ∃ frame, decode (encodeTelemetry message).frame.view = { frame } ∧
      frame.messageType = .telemetry := by
  obtain ⟨-, hview⟩ := encodeTelemetry_wire h
  have hp : 0 + (telemetryPayload message).length ≤ maximumPayloadSize := by
    rw [length_telemetryPayload h]
    decide
  rw [hview, @decode_wire .telemetry _ _ _ rfl hp]
  exact ⟨_, rfl, rfl⟩

/-- What `decode_telemetry` accepts in a telemetry frame, `encode_telemetry` writes back. -/
lemma encodeTelemetry_decode {b : List UInt8} (h : (decodeTelemetry b).ok)
    (ht : (decode b).frame.messageType = .telemetry) :
    (encodeTelemetry (decodeTelemetry b).message).ok ∧
      (encodeTelemetry (decodeTelemetry b).message).frame.view = b := by
  obtain ⟨type, t, message, hid, hvalid, htype, e⟩ := decodeTelemetry_inv h
  have hd : (decodeTelemetry b).message = message := by
    rw [e, decodeTelemetry_wire hvalid (decodeMessageType_encode hid)]
  obtain ⟨hok, hview⟩ := encodeTelemetry_wire hvalid
  rw [htype] at ht
  subst ht
  cases hid
  rw [hd]
  exact ⟨hok, hview.trans e.symm⟩

/-- Encoding succeeds exactly on valid messages. -/
lemma valid_of_encodeTelemetry {message : TelemetryMessage} (h : (encodeTelemetry message).ok) :
    message.Valid := by
  constructor
  · intro e
    simp [encodeTelemetry, e, encodeFlightMode, TelemetryEncodeResult.ok] at h
  · unfold encodeTelemetry at h
    split at h
    · cases h
    · split at h
      · cases h
      · rename_i hm
        exact not_not.mp hm

/-- Telemetry encoding is lossless: a message is refused only for unknown fault bits, and otherwise
comes back with every field. -/
theorem telemetry_codec_lossless (message : TelemetryMessage)
    (h : message.snapshot.flightMode ≠ .unnamed) :
    ((encodeTelemetry message).ok ↔ message.latchedFaultMask &&& ~~~knownFaultMask = 0) ∧
      ((encodeTelemetry message).ok →
        (decodeTelemetry (encodeTelemetry message).frame.view).ok ∧
          (decodeTelemetry (encodeTelemetry message).frame.view).message = message) := by
  refine ⟨⟨fun hok => (valid_of_encodeTelemetry hok).mask, ?_⟩, ?_⟩
  · exact fun hm => (encodeTelemetry_wire ⟨h, hm⟩).1
  · intro hok
    rw [(decodeTelemetry_encode (valid_of_encodeTelemetry hok)).2]
    exact ⟨rfl, rfl⟩

/-- The lowest temperature and a mask with every known bit. -/
theorem telemetry_codec_lossless_extremes :
    ((encodeTelemetry ⟨⟨0, 0, .nominal, ⟨0, -32768, 0⟩⟩, 7⟩).ok ↔
        (7 : UInt32) &&& ~~~knownFaultMask = 0) ∧
      ((encodeTelemetry ⟨⟨0, 0, .nominal, ⟨0, -32768, 0⟩⟩, 7⟩).ok →
        (decodeTelemetry (encodeTelemetry ⟨⟨0, 0, .nominal, ⟨0, -32768, 0⟩⟩, 7⟩).frame.view).ok ∧
          (decodeTelemetry
              (encodeTelemetry ⟨⟨0, 0, .nominal, ⟨0, -32768, 0⟩⟩, 7⟩).frame.view).message =
            ⟨⟨0, 0, .nominal, ⟨0, -32768, 0⟩⟩, 7⟩) :=
  telemetry_codec_lossless ⟨⟨0, 0, .nominal, ⟨0, -32768, 0⟩⟩, 7⟩ (by decide)

/-- The payload of the frame is that of telemetry. -/
def TelemetryPayload (frame : Frame) : Prop :=
  frame.payloadLength = telemetryPayloadSize ∧
    (frame.payload[8]?.bind decodeFlightMode).isSome ∧
    ∀ h, TelemetryDetail.readU32Le frame 15 h &&& ~~~knownFaultMask = 0

/-- `decode_telemetry` checks the frame and the payload, and nothing else. -/
lemma decodeTelemetry_ok_iff {b : List UInt8} :
    (decodeTelemetry b).ok ↔ (decode b).ok ∧ TelemetryPayload (decode b).frame := by
  have h8 : (decode b).frame.payload[8]? = some (decode b).frame.payload[8] :=
    Vector.getElem?_eq_getElem _
  rw [TelemetryPayload, decodeTelemetry, h8, Option.bind_some]
  by_cases hok : (decode b).ok
  case neg => simp [hok, TelemetryDecodeResult.ok]
  by_cases hlen : (decode b).frame.payloadLength = telemetryPayloadSize
  case neg => simp [hok, hlen, TelemetryDecodeResult.ok]
  cases hm : decodeFlightMode (decode b).frame.payload[8] with
  | none => simp [hok, hlen, TelemetryDecodeResult.ok]
  | some mode =>
    by_cases hmask : TelemetryDetail.readU32Le (decode b).frame 15 (by decide) &&&
        ~~~knownFaultMask = 0
    · simp [hok, hlen, hmask, TelemetryDecodeResult.ok]
    · simp [hok, hlen, hmask, TelemetryDecodeResult.ok, maximumPayloadSize]

/-- An intact frame that carries a telemetry payload and is not telemetry. -/
def Disguised (b : List UInt8) : Prop :=
  (decode b).ok ∧ (decode b).frame.messageType ≠ .telemetry ∧ TelemetryPayload (decode b).frame

/-- When what `decode_telemetry` accepts is what `encode_telemetry` puts out: always but for frames of
another type that carry a telemetry payload. -/
theorem decodes_genuine_iff (b : List UInt8) :
    ((decodeTelemetry b).ok →
      (encodeTelemetry (decodeTelemetry b).message).ok ∧
        (encodeTelemetry (decodeTelemetry b).message).frame.view = b) ↔ ¬ Disguised b := by
  constructor
  · rintro h ⟨hok, htype, hpay⟩
    obtain ⟨henc, hview⟩ := h (decodeTelemetry_ok_iff.mpr ⟨hok, hpay⟩)
    obtain ⟨frame, hd, ht⟩ := decode_encodeTelemetry (valid_of_encodeTelemetry henc)
    rw [hview] at hd
    rw [hd] at htype
    exact htype ht
  · intro h hok
    obtain ⟨hdec, hpay⟩ := decodeTelemetry_ok_iff.mp hok
    refine encodeTelemetry_decode hok ?_
    by_contra htype
    exact h ⟨hdec, htype, hpay⟩

/-- A command frame with 19 zero bytes of payload is accepted as telemetry. -/
theorem decodes_command_as_telemetry :
    (encode { messageType := .command, payloadLength := 19 }).ok ∧
      (decodeTelemetry (encode { messageType := .command, payloadLength := 19 }).frame.view).ok ∧
      (encodeTelemetry (decodeTelemetry
          (encode { messageType := .command, payloadLength := 19 }).frame.view).message).frame.view ≠
        (encode { messageType := .command, payloadLength := 19 }).frame.view := by
  refine ⟨?_, ?_, ?_⟩
  · decide +kernel
  · decide +kernel
  · decide +kernel

end ApogeeFC.Codec
