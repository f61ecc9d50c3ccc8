import ApogeeFC.Codec.Frame
import Mathlib.Data.List.Basic

/-!
# The frame codec is a bijection

`wire t seq p` is the layout of a frame as one list. `encode` produces exactly such lists
(`encode_wire`), `decode` accepts all of them (`decode_wire`) and nothing else (`decode_inv`), so the
two functions are inverse to each other.
-/

namespace ApogeeFC.Codec
open Buffer LittleEndian Detail

/-- The CRC-covered part of a frame. -/
def wireBody (type : UInt8) (sequence : UInt32) (payload : List UInt8) : List UInt8 :=
  [protocolVersion, type] ++ bytes16 (.ofNat payload.length) ++ bytes32 sequence ++ payload

/-- A frame as one list of bytes. -/
def wire (type : UInt8) (sequence : UInt32) (payload : List UInt8) : List UInt8 :=
  [0xA5, 0x5A] ++ wireBody type sequence payload ++
    bytes16 (crc16CcittFalse (wireBody type sequence payload))

/-- The payload bytes of a frame. -/
def Frame.payloadBytes (frame : Frame) : List UInt8 :=
  contents frame.payload frame.payloadLength.toNat

/-- The frame `decode` builds: the unused payload bytes are zero. -/
def decodedFrame (type : MessageType) (sequence : UInt32) (payload : List UInt8)
    (h : 0 + payload.length ≤ maximumPayloadSize) : Frame where
  messageType := type
  payloadLength := .ofNat payload.length
  sequence := sequence
  payload := fill (Vector.replicate maximumPayloadSize 0) 0 payload h

section
variable (type : MessageType) (seq : UInt32) (p : List UInt8)
  (h : 0 + p.length ≤ maximumPayloadSize)

@[simp] lemma messageType_decodedFrame : (decodedFrame type seq p h).messageType = type := rfl

@[simp] lemma sequence_decodedFrame : (decodedFrame type seq p h).sequence = seq := rfl

@[simp] lemma payloadLength_decodedFrame :
    (decodedFrame type seq p h).payloadLength = .ofNat p.length := rfl

@[simp] lemma ok_decodeResult (frame : Frame) : (DecodeResult.mk .ok frame).ok = true := rfl

end

@[simp] lemma length_wireBody (t seq p) : (wireBody t seq p).length = 8 + p.length := by
  simp [wireBody]
  omega

@[simp] lemma length_wire (t seq p) : (wire t seq p).length = 12 + p.length := by
  simp [wire]
  omega

/-- The type byte determines the type. -/
lemma decodeMessageType_encode {type : MessageType} {t} (h : encodeMessageType type = some t) :
    decodeMessageType t = some type := by
  cases type <;> simp [encodeMessageType] at h <;> subst h <;> rfl

/-- Only the bytes of the enumerators decode. -/
lemma encodeMessageType_decode {type : MessageType} {t} (h : decodeMessageType t = some type) :
    encodeMessageType type = some t := by
  unfold decodeMessageType at h
  split at h
  all_goals first | cases h; rfl | cases h

/-- An enumerator has a type byte. -/
lemma MessageType.Named.encode {type : MessageType} (h : type.Named) :
    ∃ t, encodeMessageType type = some t := by
  cases type with
  | unnamed => exact absurd rfl h
  | _ => exact ⟨_, rfl⟩

lemma contents_writeU16Le (bytes offset value h) :
    contents (writeU16Le bytes offset value h) (offset + 2) =
      contents bytes offset ++ bytes16 value :=
  contents_fill bytes offset (bytes16 value) h

lemma contents_writeU32Le (bytes offset value h) :
    contents (writeU32Le bytes offset value h) (offset + 4) =
      contents bytes offset ++ bytes32 value :=
  contents_fill bytes offset (bytes32 value) h

/-- What `encode` writes. -/
lemma encode_wire {input : Frame} {t} (hv : input.version = protocolVersion)
    (ht : encodeMessageType input.messageType = some t)
    (hl : input.payloadLength.toNat ≤ maximumPayloadSize) :
    (encode input).ok ∧ (encode input).frame.view = wire t input.sequence input.payloadBytes := by
  have hp : span input.payload 0 input.payloadLength.toNat = input.payloadBytes := by
    simp [span, Frame.payloadBytes, contents]
  have hn : input.payloadBytes.length = input.payloadLength.toNat := by
    simp [Frame.payloadBytes, hl]
  have e16 : UInt16.ofNat input.payloadBytes.length = input.payloadLength := by
    rw [hn, UInt16.ofNat_toNat]
  have hd : ¬ maximumPayloadSize < input.payloadLength.toNat := Nat.not_lt.mpr hl
  simp only [encode, hv, ne_eq, not_true_eq_false, if_false, ht, hd, dif_neg, not_false_eq_true]
  refine ⟨rfl, ?_⟩
  rw [EncodedFrame.view, contents_writeU16Le]
  generalize hb : fill _ 10 _ _ = b
  have hc : contents b (10 + input.payloadLength.toNat) =
      [0xA5, 0x5A] ++ wireBody t input.sequence input.payloadBytes := by
    have hf : 10 + input.payloadLength.toNat =
        10 + (span input.payload 0 input.payloadLength.toNat).length := by
      rw [hp, hn]
    rw [← hb, hf, contents_fill, hp, contents_writeU32Le, contents_writeU16Le,
      contents_set, contents_set, contents_set, contents_set, wireBody, e16]
    simp
  have he : 2 + (8 + input.payloadLength.toNat) = 10 + input.payloadLength.toNat := by omega
  rw [span_eq, he, hc, wire]
  rfl

/-- The CRC field of a frame is where `decode` looks for it. -/
lemma readU16Le_append (xs : List UInt8) {c0 c1 offset} (ho : offset = xs.length)
    (h : offset + 2 ≤ (xs ++ [c0, c1]).length) :
    readU16Le (xs ++ [c0, c1]) offset h = word16 c0 c1 := by
  subst ho
  simp [readU16Le]

/-- `decode` accepts what `encode` writes. -/
lemma decode_wire {type : MessageType} {t seq p} (ht : decodeMessageType t = some type)
    (hp : 0 + p.length ≤ maximumPayloadSize) :
    decode (wire t seq p) = { frame := decodedFrame type seq p hp } := by
  have hmax : p.length ≤ 64 := by simpa using hp
  have hn : p.length < 2 ^ 16 := by omega
  obtain ⟨l0, l1, hl⟩ : ∃ l0 l1, bytes16 (.ofNat p.length) = [l0, l1] := ⟨_, _, rfl⟩
  obtain ⟨s0, s1, s2, s3, hs⟩ : ∃ s0 s1 s2 s3, bytes32 seq = [s0, s1, s2, s3] :=
    ⟨_, _, _, _, rfl⟩
  obtain ⟨c0, c1, hc⟩ : ∃ c0 c1, bytes16 (crc16CcittFalse (wireBody t seq p)) = [c0, c1] :=
    ⟨_, _, rfl⟩
  have hw : wire t seq p =
      [0xA5, 0x5A, protocolVersion, t, l0, l1, s0, s1, s2, s3] ++ p ++ [c0, c1] := by
    rw [wire, hc, wireBody, hl, hs]
    simp
  have hlen := word16_bytes16 _ _ _ hl
  have hseq := word32_bytes32 _ _ _ _ _ hs
  have hcrc := word16_bytes16 _ _ _ hc
  have hnat : (UInt16.ofNat p.length).toNat = p.length := by
    rw [UInt16.toNat_ofNat', Nat.mod_eq_of_lt hn]
  have hbody : ((wire t seq p).drop 2).take (8 + p.length) = wireBody t seq p := by
    rw [wire, List.append_assoc, ← length_wireBody t seq p]
    exact List.take_left
  rw [decode, dif_neg (by simp), if_neg (by simp [hw]), if_neg (by simp [hw])]
  have h2 : ∀ h : 2 < (wire t seq p).length, (wire t seq p)[2] = protocolVersion := by simp [hw]
  have h3 : ∀ h : 3 < (wire t seq p).length, (wire t seq p)[3] = t := by simp [hw]
  have h4 : ∀ h, readU16Le (wire t seq p) 4 h = UInt16.ofNat p.length := by
    simp [hw, readU16Le, hlen]
  have h6 : ∀ h, readU32Le (wire t seq p) 6 h = seq := by
    simp [hw, readU32Le, hseq]
  have hcrcf : ∀ h, readU16Le (wire t seq p) (10 + p.length) h =
      crc16CcittFalse (wireBody t seq p) := by
    rw [hw]
    intro h
    rw [readU16Le_append _ (by simp; omega), hcrc]
  have hpay : ((wire t seq p).drop 10).take p.length = p := by simp [hw]
  simp only [h2, h3, ht, h4, h6, hnat, hcrcf, hbody, hpay]
  rw [dif_neg (Nat.not_lt.mpr hmax), if_neg (by simp), dif_neg (by simp), if_neg (by simp)]
  rfl

/-- A list of at least ten bytes, split where the payload starts. -/
lemma split_header {b : List UInt8} (h : 12 ≤ b.length) :
    ∃ b0 b1 b2 b3 b4 b5 b6 b7 b8 b9 rest,
      b = b0 :: b1 :: b2 :: b3 :: b4 :: b5 :: b6 :: b7 :: b8 :: b9 :: rest := by
  match b, h with
  | b0 :: b1 :: b2 :: b3 :: b4 :: b5 :: b6 :: b7 :: b8 :: b9 :: rest, _ =>
    exact ⟨b0, b1, b2, b3, b4, b5, b6, b7, b8, b9, rest, rfl⟩

/-- A list split before its last two bytes. -/
lemma split_crc {rest : List UInt8} {k} (h : rest.length = k + 2) :
    ∃ p c0 c1, rest = p ++ [c0, c1] ∧ p.length = k := by
  have hd : (rest.drop k).length = 2 := by simp [h]
  obtain ⟨c0, c1, hc⟩ := List.length_eq_two.mp hd
  refine ⟨rest.take k, c0, c1, ?_, by simp [h]⟩
  rw [← hc, List.take_append_drop]

/-- A frame is at least as long as one without payload. -/
lemma length_of_decode {b : List UInt8} (h : (decode b).ok) : 12 ≤ b.length := by
  unfold decode at h
  split at h
  · exact absurd h (by decide)
  rename_i hmin
  exact Nat.le_of_not_lt hmin

/-- The checks that `decode` makes. -/
lemma decode_checks {b0 b1 b2 t l0 l1 s0 s1 s2 s3 : UInt8} {rest b : List UInt8}
    (e : b = b0 :: b1 :: b2 :: t :: l0 :: l1 :: s0 :: s1 :: s2 :: s3 :: rest) (h : (decode b).ok) :
    (b0 = 0xA5 ∧ b1 = 0x5A) ∧ b2 = protocolVersion ∧
      (∃ type, decodeMessageType t = some type) ∧ (word16 l0 l1).toNat ≤ maximumPayloadSize ∧
      b.length = 12 + (word16 l0 l1).toNat ∧
      ∀ hc, crc16CcittFalse ((b.drop 2).take (8 + (word16 l0 l1).toNat)) =
        readU16Le b (10 + (word16 l0 l1).toNat) hc := by
  subst e
  unfold decode at h
  split at h
  · exact absurd h (by decide)
  dsimp only at h
  split at h
  · exact absurd h (by decide)
  rename_i hsync
  split at h
  · exact absurd h (by decide)
  rename_i hver
  split at h
  · exact absurd h (by decide)
  rename_i type ht
  split at h
  · exact absurd h (by decide)
  rename_i hmax
  split at h
  · exact absurd h (by decide)
  split at h
  · exact absurd h (by decide)
  rename_i hlen
  split at h
  · exact absurd h (by decide)
  rename_i hcrc
  rw [not_or, not_not, not_not] at hsync
  exact ⟨hsync, not_not.mp hver, ⟨type, ht⟩, Nat.le_of_not_lt hmax, not_not.mp hlen,
    fun _ => not_not.mp hcrc⟩

/-- `decode` accepts nothing else. -/
lemma decode_inv {b : List UInt8} (h : (decode b).ok) :
    ∃ t type seq p, decodeMessageType t = some type ∧ p.length ≤ maximumPayloadSize ∧
      b = wire t seq p := by
  obtain ⟨b0, b1, b2, t, l0, l1, s0, s1, s2, s3, rest, e⟩ := split_header (length_of_decode h)
  obtain ⟨⟨e0, e1⟩, hver, ⟨type, ht⟩, hmax, hlen, hcrc⟩ := decode_checks e h
  subst e; subst e0; subst e1; subst hver
  have hrest : rest.length = (word16 l0 l1).toNat + 2 := by
    simp only [List.length_cons] at hlen
    omega
  obtain ⟨p, c0, c1, e, hp⟩ := split_crc hrest
  subst e
  have hbytes : bytes16 (.ofNat p.length) = [l0, l1] := by
    rw [hp, UInt16.ofNat_toNat, bytes16_word16]
  have hbody : wireBody t (word32 s0 s1 s2 s3) p =
      protocolVersion :: t :: l0 :: l1 :: s0 :: s1 :: s2 :: s3 :: p := by
    simp [wireBody, hbytes, bytes32_word32]
  have hcovered : (List.drop 2 ((0xA5 :: 0x5A :: protocolVersion :: t :: l0 :: l1 :: s0 :: s1 :: s2 ::
      s3 :: (p ++ [c0, c1])))).take (8 + (word16 l0 l1).toNat) =
      wireBody t (word32 s0 s1 s2 s3) p := by
    rw [hbody, ← hp, Nat.add_comm]
    simp
  have hread : ∀ h, readU16Le (0xA5 :: 0x5A :: protocolVersion :: t :: l0 :: l1 :: s0 :: s1 :: s2 ::
      s3 :: (p ++ [c0, c1])) (10 + (word16 l0 l1).toNat) h = word16 c0 c1 := by
    intro h
    exact readU16Le_append
      (0xA5 :: 0x5A :: protocolVersion :: t :: l0 :: l1 :: s0 :: s1 :: s2 :: s3 :: p)
      (by simp [hp]; omega) h
  have hcrc := hcrc (by simp [hp]; omega)
  rw [hcovered, hread] at hcrc
  refine ⟨t, type, word32 s0 s1 s2 s3, p, ht, ?_, ?_⟩
  · rw [hp]
    exact hmax
  · rw [wire, hcrc, bytes16_word16, hbody]
    simp

/-- `encode` succeeds on valid frames only. -/
lemma encode_inv {input : Frame} (h : (encode input).ok) :
    input.version = protocolVersion ∧ (∃ t, encodeMessageType input.messageType = some t) ∧
      input.payloadLength.toNat ≤ maximumPayloadSize := by
  unfold encode at h
  split at h
  · exact absurd h (by decide)
  rename_i hv
  split at h
  · exact absurd h (by decide)
  rename_i t ht
  dsimp only at h
  split at h
  · exact absurd h (by decide)
  rename_i hl
  exact ⟨Decidable.not_not.mp hv, ⟨t, ht⟩, Nat.le_of_not_lt hl⟩

@[simp] lemma payloadBytes_decodedFrame (type seq p h) :
    (decodedFrame type seq p h).payloadBytes = p := by
  have hmax : p.length ≤ 64 := by simpa using h
  have hn : (UInt16.ofNat p.length).toNat = 0 + p.length := by
    rw [UInt16.toNat_ofNat', Nat.mod_eq_of_lt (by omega), Nat.zero_add]
  rw [Frame.payloadBytes, decodedFrame, hn, contents_fill]
  simp

/-- The payload bytes of a decoded frame, one by one. -/
lemma getElem_decodedFrame {type seq p h} {i : Nat} (hi : i < p.length)
    (h64 : i < maximumPayloadSize) : (decodedFrame type seq p h).payload[i] = p[i] := by
  have hp : p.length ≤ maximumPayloadSize := by simpa using h
  have hc : contents (decodedFrame type seq p h).payload p.length = p := by
    have hf := contents_fill (Vector.replicate maximumPayloadSize 0) 0 p h
    rwa [Nat.zero_add, contents_zero, List.nil_append] at hf
  have hr := read_of_lt (v := (decodedFrame type seq p h).payload) hi hp
  rw [hc, Buffer.read, Vector.getElem?_eq_getElem h64, List.getElem?_eq_getElem hi] at hr
  exact Option.some.inj hr

/-- A payload of few enough bytes has a length field that tells their number. -/
lemma toNat_ofNat_length {p : List UInt8} (h : 0 + p.length ≤ maximumPayloadSize) :
    (UInt16.ofNat p.length).toNat = p.length := by
  have hp : p.length ≤ 64 := by simpa using h
  rw [UInt16.toNat_ofNat', Nat.mod_eq_of_lt (by omega)]

/-- The length field tells the number of payload bytes. -/
lemma ofNat_length_eq {p : List UInt8} (h : 0 + p.length ≤ maximumPayloadSize) {n : UInt16} :
    UInt16.ofNat p.length = n ↔ p.length = n.toNat := by
  rw [← UInt16.toNat_inj, toNat_ofNat_length h]

/-- Everything about a byte string that `decode` accepts. -/
lemma decode_view {b : List UInt8} (h : (decode b).ok) :
    ∃ t type seq p hp, encodeMessageType type = some t ∧ b = wire t seq p ∧
      decode b = { frame := decodedFrame type seq p hp } := by
  obtain ⟨t, type, seq, p, ht, hp, e⟩ := decode_inv h
  have hp' : 0 + p.length ≤ maximumPayloadSize := by simpa using hp
  refine ⟨t, type, seq, p, hp', encodeMessageType_decode ht, e, ?_⟩
  rw [e, decode_wire ht hp']

/-- What `encode` outputs, `decode` reads back. -/
lemma decode_encode {input : Frame} (h : (encode input).ok) :
    ∃ hp, decode (encode input).frame.view =
      { frame := decodedFrame input.messageType input.sequence input.payloadBytes hp } := by
  obtain ⟨hv, ⟨t, ht⟩, hl⟩ := encode_inv h
  have hp : 0 + input.payloadBytes.length ≤ maximumPayloadSize := by
    simp [Frame.payloadBytes]
  rw [(encode_wire hv ht hl).2]
  exact ⟨hp, decode_wire (decodeMessageType_encode ht) hp⟩

/-- What `decode` accepts, `encode` writes back. -/
lemma encode_decode {b : List UInt8} (h : (decode b).ok) :
    (encode (decode b).frame).ok ∧ (encode (decode b).frame).frame.view = b := by
  obtain ⟨t, type, seq, p, ht, hp, e⟩ := decode_inv h
  subst e
  rw [decode_wire ht (by simpa using hp)]
  have hl : (decodedFrame type seq p (by simpa using hp)).payloadLength.toNat ≤
      maximumPayloadSize := by
    have hmax : p.length ≤ 64 := hp
    rw [decodedFrame, UInt16.toNat_ofNat', Nat.mod_eq_of_lt (by omega)]
    exact hp
  obtain ⟨hok, hview⟩ := @encode_wire (decodedFrame type seq p (by simpa using hp)) t rfl
    (encodeMessageType_decode ht) hl
  exact ⟨hok, by rw [hview, payloadBytes_decodedFrame, decodedFrame]⟩

/-- `decode` accepts exactly the outputs of `encode`. -/
lemma decode_ok_iff {b : List UInt8} :
    (decode b).ok ↔ ∃ input, (encode input).ok ∧ (encode input).frame.view = b := by
  constructor
  · intro h
    exact ⟨_, encode_decode h⟩
  · rintro ⟨input, h, e⟩
    subst e
    obtain ⟨hp, hd⟩ := decode_encode h
    rw [hd]
    rfl

/-- The frame codec is an exact bijection between valid frames with zero-padded payloads and the byte
strings `decode` accepts. -/
theorem frame_codec_bijection :
    (∀ input : Frame, input.version = protocolVersion → input.messageType.Named →
      input.payloadLength.toNat ≤ maximumPayloadSize →
      (encode input).ok ∧ (decode (encode input).frame.view).ok ∧
        (decode (encode input).frame.view).frame.version = input.version ∧
        (decode (encode input).frame.view).frame.messageType = input.messageType ∧
        (decode (encode input).frame.view).frame.payloadLength = input.payloadLength ∧
        (decode (encode input).frame.view).frame.sequence = input.sequence ∧
        (decode (encode input).frame.view).frame.payloadBytes = input.payloadBytes ∧
        (decode (encode input).frame.view).frame.payload.toList.drop input.payloadLength.toNat =
          List.replicate (maximumPayloadSize - input.payloadLength.toNat) 0) ∧
    (∀ b : List UInt8, (decode b).ok →
      (encode (decode b).frame).ok ∧ (encode (decode b).frame).frame.view = b) ∧
    (∀ b : List UInt8, (decode b).ok ↔
      ∃ input, (encode input).ok ∧ (encode input).frame.view = b) := by
  refine ⟨?_, fun b => encode_decode, fun b => decode_ok_iff⟩
  intro input hv ht hl
  obtain ⟨t, ht⟩ := ht.encode
  have hok := (encode_wire hv ht hl).1
  have hn : input.payloadBytes.length = input.payloadLength.toNat := by
    simp [Frame.payloadBytes, hl]
  obtain ⟨hp, hd⟩ := decode_encode hok
  have hz : (decodedFrame input.messageType input.sequence input.payloadBytes hp).payload.toList.drop
      input.payloadLength.toNat =
        List.replicate (maximumPayloadSize - input.payloadLength.toNat) 0 := by
    rw [decodedFrame, toList_fill, ← hn]
    simp
  rw [hd]
  refine ⟨hok, rfl, hv.symm, rfl, ?_, rfl, payloadBytes_decodedFrame _ _ _ hp, hz⟩
  rw [decodedFrame, hn, UInt16.ofNat_toNat]

/-- A frame with three bytes of payload, two of which are a sync pair. -/
def threeByteFrame : Frame :=
  let frame : Frame := { messageType := .commandAck, sequence := 0x01020304, payloadLength := 3 }
  { frame with
    payload := ((frame.payload.setIfInBounds 0 0xA5).setIfInBounds 1 0x5A).setIfInBounds 2 7 }

theorem frame_codec_bijection_three :
    (encode threeByteFrame).ok ∧ (decode (encode threeByteFrame).frame.view).ok ∧
      (decode (encode threeByteFrame).frame.view).frame.sequence = 0x01020304 ∧
      (decode (encode threeByteFrame).frame.view).frame.payloadBytes = [0xA5, 0x5A, 7] ∧
      (encode (decode (encode threeByteFrame).frame.view).frame).frame.view =
        (encode threeByteFrame).frame.view := by
  obtain ⟨hok, hdec, -, -, -, hseq, hpayload, -⟩ := frame_codec_bijection.1 threeByteFrame rfl
    (by simp [MessageType.Named, threeByteFrame]) (by decide)
  refine ⟨hok, hdec, hseq, hpayload.trans (by decide +kernel), ?_⟩
  exact (frame_codec_bijection.2.1 _ hdec).2

end ApogeeFC.Codec
