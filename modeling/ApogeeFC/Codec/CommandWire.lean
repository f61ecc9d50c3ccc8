import ApogeeFC.Codec.Command
import ApogeeFC.Codec.FrameWire

/-!
# The command codecs are bijections

`commandPayload` and `ackPayload` are the layouts of the two payloads. As for frames, encoding writes
them (`encodeCommand_wire`, `encodeCommandAck_wire`) and decoding accepts them and nothing else
(`decodeCommand_inv`, `decodeCommandAck_inv`). A command other than `SetTelemetryPeriod` does not
carry its period, so a command comes back in its normal form.
-/

namespace ApogeeFC.Codec
open Buffer LittleEndian Detail CommandDetail

/-- The payload of a command. -/
def commandPayload (message : CommandMessage) : List UInt8 :=
  (CommandDetail.encodeCommand message.command).toList ++
    if message.command = .setTelemetryPeriod then bytes32 message.periodMs else []

/-- The payload of an acknowledgement. -/
def ackPayload (message : CommandAckMessage) : List UInt8 :=
  (CommandDetail.encodeCommand message.command).toList ++ (encodeAckStatus message.status).toList

/-- The command without what the wire does not carry. -/
def CommandMessage.normal (message : CommandMessage) : CommandMessage :=
  { message with periodMs := if message.command = .setTelemetryPeriod then message.periodMs else 0 }

/-- The command byte determines the command. -/
lemma decodeCommand_encodeId {command : CommandId} {c}
    (h : CommandDetail.encodeCommand command = some c) :
    CommandDetail.decodeCommand c = some command := by
  cases command <;> simp [CommandDetail.encodeCommand] at h <;> subst h <;> rfl

/-- Only the bytes of the enumerators decode. -/
lemma encodeCommand_decodeId {command : CommandId} {c}
    (h : CommandDetail.decodeCommand c = some command) :
    CommandDetail.encodeCommand command = some c := by
  unfold CommandDetail.decodeCommand at h
  split at h
  all_goals first | cases h; rfl | cases h

/-- The status byte determines the status. -/
lemma decodeAckStatus_encode {status : CommandAckStatus} {c} (h : encodeAckStatus status = some c) :
    decodeAckStatus c = some status := by
  cases status <;> simp [encodeAckStatus] at h <;> subst h <;> rfl

/-- Only the bytes of the enumerators decode. -/
lemma encodeAckStatus_decode {status : CommandAckStatus} {c} (h : decodeAckStatus c = some status) :
    encodeAckStatus status = some c := by
  unfold decodeAckStatus at h
  split at h
  all_goals first | cases h; rfl | cases h

lemma CommandId.Named.encode {command : CommandId} (h : command.Named) :
    ∃ c, CommandDetail.encodeCommand command = some c := by
  cases command with
  | unnamed => exact absurd rfl h
  | _ => exact ⟨_, rfl⟩

lemma CommandAckStatus.Named.encode {status : CommandAckStatus} (h : status.Named) :
    ∃ c, encodeAckStatus status = some c := by
  cases status with
  | unnamed => exact absurd rfl h
  | _ => exact ⟨_, rfl⟩

lemma named_of_encodeCommand {command : CommandId} {c}
    (h : CommandDetail.encodeCommand command = some c) : command.Named := by
  intro e
  subst e
  cases h

lemma named_of_encodeAckStatus {status : CommandAckStatus} {c} (h : encodeAckStatus status = some c) :
    status.Named := by
  intro e
  subst e
  cases h

/-- The frame of a command without its period. -/
lemma payload_set (c : UInt8) :
    contents ((Vector.replicate maximumPayloadSize 0).set 0 c) 1 = [c] := by
  rw [contents_set, contents_zero, List.nil_append]

/-- What `encode_command` writes. -/
lemma encodeCommand_wire {message : CommandMessage} (h : message.command.Named) :
    (encodeCommand message).ok ∧
      (encodeCommand message).frame.view = wire 0x10 message.sequence (commandPayload message) := by
  obtain ⟨c, hc⟩ := h.encode
  rw [encodeCommand, commandPayload, hc, Option.toList_some]
  by_cases hp : message.command = .setTelemetryPeriod
  · rw [if_pos hp]
    obtain ⟨hok, hview⟩ := @encode_wire (CommandDetail.writeU32Le
      { messageType := .command, sequence := message.sequence, payloadLength := 5,
        payload := (Vector.replicate maximumPayloadSize 0).set 0 c } 1 message.periodMs (by decide))
      0x10 rfl rfl (Nat.le_of_ble_eq_true rfl)
    have hbytes : contents (fill ((Vector.replicate maximumPayloadSize 0).set 0 c) 1
        (bytes32 message.periodMs) (Nat.le_of_ble_eq_true rfl)) 5 =
          [c] ++ bytes32 message.periodMs := by
      rw [← payload_set c]
      exact contents_fill _ 1 (bytes32 message.periodMs) _
    simp only [if_pos hp, hok]
    exact ⟨rfl, hview.trans (congrArg (wire _ _) hbytes)⟩
  · rw [if_neg hp, List.append_nil]
    obtain ⟨hok, hview⟩ := @encode_wire
      { messageType := .command, sequence := message.sequence, payloadLength := 1,
        payload := (Vector.replicate maximumPayloadSize 0).set 0 c } 0x10 rfl rfl
      (Nat.le_of_ble_eq_true rfl)
    simp only [if_neg hp, hok]
    exact ⟨rfl, hview.trans (congrArg (wire _ _) (payload_set c))⟩

/-- What `encode_command_ack` writes. -/
lemma encodeCommandAck_wire {message : CommandAckMessage} (hc : message.command.Named)
    (hs : message.status.Named) :
    (encodeCommandAck message).ok ∧
      (encodeCommandAck message).frame.view = wire 0x11 message.sequence (ackPayload message) := by
  obtain ⟨c, hc⟩ := hc.encode
  obtain ⟨s, hs⟩ := hs.encode
  rw [encodeCommandAck, ackPayload, hc, hs, Option.toList_some, Option.toList_some]
  obtain ⟨hok, hview⟩ := @encode_wire
    { messageType := .commandAck, payloadLength := 2, sequence := message.sequence,
      payload := ((Vector.replicate maximumPayloadSize 0).set 0 c).set 1 s } 0x11 rfl rfl
    (Nat.le_of_ble_eq_true rfl)
  have hbytes : contents (((Vector.replicate maximumPayloadSize 0).set 0 c).set 1 s) 2 =
      [c] ++ [s] := by
    rw [contents_set, payload_set]
  simp only [hok]
  exact ⟨rfl, hview.trans (congrArg (wire _ _) hbytes)⟩

/-- `decode_command` on an intact command frame with a command byte. -/
lemma decodeCommand_frame {b seq c p hp}
    (hd : decode b = { frame := decodedFrame .command seq (c :: p) hp }) :
    decodeCommand b = match CommandDetail.decodeCommand c with
      | none => { status := .unknownCommand }
      | some command =>
        if (c :: p).length ≠ (if command = .setTelemetryPeriod then 5 else 1) then
          { status := .invalidPayloadLength }
        else
          { message :=
            { sequence := seq
              command
              periodMs :=
                if command = .setTelemetryPeriod then
                  CommandDetail.readU32Le (decodedFrame .command seq (c :: p) hp) 1
                    (Nat.le_of_ble_eq_true rfl)
                else 0 } } := by
  have h0 : (decodedFrame .command seq (c :: p) hp).payload[0] = c :=
    getElem_decodedFrame (by simp) (by decide)
  have h1 : ¬ (decodedFrame .command seq (c :: p) hp).payloadLength < 1 := by
    rw [decodedFrame, UInt16.lt_iff_toNat_lt, toNat_ofNat_length hp]
    simp
  have hlen : ∀ command : CommandId, (decodedFrame .command seq (c :: p) hp).payloadLength =
      (if command = .setTelemetryPeriod then 5 else 1) ↔
        (c :: p).length = if command = .setTelemetryPeriod then 5 else 1 := by
    intro command
    rw [decodedFrame, ofNat_length_eq hp]
    split <;> rfl
  have hok : (DecodeResult.mk .ok (decodedFrame .command seq (c :: p) hp)).ok := rfl
  rw [decodeCommand, hd]
  simp only [hok, not_true_eq_false, if_false, h0, ne_eq, hlen]
  rw [if_neg (by simp [decodedFrame]), if_neg h1]
  rfl

/-- `decode_command` accepts the layout of a command and reads it back. -/
lemma decodeCommand_wire {message : CommandMessage} (h : message.command.Named) :
    decodeCommand (wire 0x10 message.sequence (commandPayload message)) =
      { message := message.normal } := by
  obtain ⟨c, hc⟩ := h.encode
  rw [commandPayload, CommandMessage.normal, hc, Option.toList_some, List.singleton_append]
  by_cases hp : message.command = .setTelemetryPeriod
  · simp only [if_pos hp]
    obtain ⟨b0, b1, b2, b3, hb⟩ : ∃ b0 b1 b2 b3, bytes32 message.periodMs = [b0, b1, b2, b3] :=
      ⟨_, _, _, _, rfl⟩
    rw [hb]
    have hd := @decode_wire .command 0x10 message.sequence [c, b0, b1, b2, b3] rfl
      (Nat.le_of_ble_eq_true rfl)
    rw [decodeCommand_frame hd, decodeCommand_encodeId hc]
    simp only [if_pos hp, List.length_cons, List.length_nil, ne_eq, not_true_eq_false, if_false,
      CommandDetail.readU32Le]
    rw [getElem_decodedFrame (by simp), getElem_decodedFrame (by simp),
      getElem_decodedFrame (by simp), getElem_decodedFrame (by simp)]
    simp [word32_bytes32 _ _ _ _ _ hb]
  · simp only [if_neg hp]
    have hd := @decode_wire .command 0x10 message.sequence [c] rfl (Nat.le_of_ble_eq_true rfl)
    rw [decodeCommand_frame hd, decodeCommand_encodeId hc]
    simp [hp]

/-- Four bytes. -/
lemma split_period {p : List UInt8} (h : p.length = 4) :
    ∃ b0 b1 b2 b3, p = [b0, b1, b2, b3] := by
  match p, h with
  | [b0, b1, b2, b3], _ => exact ⟨b0, b1, b2, b3, rfl⟩

/-- `decode_command` accepts nothing else. -/
lemma decodeCommand_inv {b : List UInt8} (h : (decodeCommand b).ok) :
    ∃ message : CommandMessage, message.command.Named ∧ message.normal = message ∧
      b = wire 0x10 message.sequence (commandPayload message) := by
  by_cases hok : (decode b).ok
  case neg =>
    simp [decodeCommand, hok, CommandDecodeResult.ok] at h
  obtain ⟨t, type, seq, p, hp, ht, e, hd⟩ := decode_view hok
  by_cases htype : type = .command
  case neg => simp [decodeCommand, hd, htype, CommandDecodeResult.ok] at h
  subst htype
  cases ht
  cases p with
  | nil => simp [decodeCommand, hd, CommandDecodeResult.ok] at h
  | cons c p =>
    rw [decodeCommand_frame hd] at h
    cases hc : CommandDetail.decodeCommand c with
    | none => simp [hc, CommandDecodeResult.ok] at h
    | some command =>
      have hid := encodeCommand_decodeId hc
      by_cases hlen : (c :: p).length = if command = .setTelemetryPeriod then 5 else 1
      case neg =>
        simp only [hc, ne_eq, hlen, not_false_eq_true, if_true] at h
        cases h
      case pos =>
        -- the command determines how many bytes follow its id
        by_cases hcmd : command = .setTelemetryPeriod
        · rw [if_pos hcmd] at hlen
          obtain ⟨b0, b1, b2, b3, ep⟩ := split_period (Nat.succ.inj hlen)
          subst ep
          refine ⟨⟨seq, command, word32 b0 b1 b2 b3⟩, named_of_encodeCommand hid, ?_, ?_⟩
          · rw [CommandMessage.normal, if_pos hcmd]
          · rw [e, commandPayload, hid, if_pos hcmd, bytes32_word32]
            rfl
        · rw [if_neg hcmd] at hlen
          have ep := List.length_eq_zero_iff.mp (Nat.succ.inj hlen)
          subst ep
          refine ⟨⟨seq, command, 0⟩, named_of_encodeCommand hid, ?_, ?_⟩
          · rw [CommandMessage.normal, if_neg hcmd]
          · rw [e, commandPayload, hid, if_neg hcmd]
            rfl

/-- What `encode_command` outputs, `decode_command` reads back, up to the period. -/
lemma decodeCommand_encode {message : CommandMessage} (h : message.command.Named) :
    (encodeCommand message).ok ∧
      decodeCommand (encodeCommand message).frame.view = { message := message.normal } := by
  obtain ⟨hok, hview⟩ := encodeCommand_wire h
  rw [hview]
  exact ⟨hok, decodeCommand_wire h⟩

/-- What `decode_command` accepts, `encode_command` writes back. -/
lemma encodeCommand_decode {b : List UInt8} (h : (decodeCommand b).ok) :
    (decodeCommand b).message.command.Named ∧ (encodeCommand (decodeCommand b).message).ok ∧
      (encodeCommand (decodeCommand b).message).frame.view = b := by
  obtain ⟨message, hnamed, hnormal, e⟩ := decodeCommand_inv h
  have hd : (decodeCommand b).message = message := by
    rw [e, decodeCommand_wire hnamed, hnormal]
  obtain ⟨hok, hview⟩ := encodeCommand_wire hnamed
  rw [hd]
  exact ⟨hnamed, hok, hview.trans e.symm⟩

/-- `decode_command_ack` on an intact acknowledgement frame with two payload bytes. -/
lemma decodeCommandAck_frame {b seq c s hp}
    (hd : decode b = { frame := decodedFrame .commandAck seq [c, s] hp }) :
    decodeCommandAck b = match CommandDetail.decodeCommand c with
      | none => { status := .unknownCommand }
      | some command =>
        match decodeAckStatus s with
        | none => { status := .unknownStatus, message := { command } }
        | some status => { message := { sequence := seq, command, status } } := by
  have h0 : (decodedFrame .commandAck seq [c, s] hp).payload[0] = c :=
    getElem_decodedFrame (by simp) (by decide)
  have h1 : (decodedFrame .commandAck seq [c, s] hp).payload[1] = s :=
    getElem_decodedFrame (by simp) (by decide)
  have hok : (DecodeResult.mk .ok (decodedFrame .commandAck seq [c, s] hp)).ok := rfl
  rw [decodeCommandAck, hd]
  simp only [hok, not_true_eq_false, if_false, h0, h1]
  rw [if_neg (by simp [decodedFrame]), if_neg (by simp [decodedFrame])]
  rfl

/-- `decode_command_ack` accepts the layout of an acknowledgement and reads it back. -/
lemma decodeCommandAck_wire {message : CommandAckMessage} (hc : message.command.Named)
    (hs : message.status.Named) :
    decodeCommandAck (wire 0x11 message.sequence (ackPayload message)) = { message } := by
  obtain ⟨c, hc⟩ := hc.encode
  obtain ⟨s, hs⟩ := hs.encode
  rw [ackPayload, hc, hs, Option.toList_some, Option.toList_some, List.singleton_append]
  have hd := @decode_wire .commandAck 0x11 message.sequence [c, s] rfl (Nat.le_of_ble_eq_true rfl)
  rw [decodeCommandAck_frame hd, decodeCommand_encodeId hc, decodeAckStatus_encode hs]

/-- All but the intact acknowledgement frames with two payload bytes are rejected at once. -/
lemma decodeCommandAck_cases (b : List UInt8) :
    ¬ (decodeCommandAck b).ok ∧ (decodeCommandAck b).message = {} ∨
      ∃ seq c s hp, b = wire 0x11 seq [c, s] ∧
        decode b = { frame := decodedFrame .commandAck seq [c, s] hp } := by
  by_cases hok : (decode b).ok
  case neg =>
    left
    simp [decodeCommandAck, hok, CommandAckDecodeResult.ok]
  obtain ⟨t, type, seq, p, hp, ht, e, hd⟩ := decode_view hok
  by_cases htype : type = .commandAck
  case neg =>
    left
    simp [decodeCommandAck, hd, htype, CommandAckDecodeResult.ok]
  subst htype
  cases ht
  by_cases hlen : p.length = 2
  case neg =>
    have hne : UInt16.ofNat p.length ≠ 2 := fun he => hlen ((ofNat_length_eq hp).mp he)
    left
    simp [decodeCommandAck, hd, hne, CommandAckDecodeResult.ok]
  obtain ⟨c, s, ep⟩ := List.length_eq_two.mp hlen
  subst ep
  exact .inr ⟨seq, c, s, hp, e, hd⟩

/-- `decode_command_ack` accepts nothing else. -/
lemma decodeCommandAck_inv {b : List UInt8} (h : (decodeCommandAck b).ok) :
    ∃ message : CommandAckMessage, message.command.Named ∧ message.status.Named ∧
      b = wire 0x11 message.sequence (ackPayload message) := by
  obtain ⟨hrej, -⟩ | ⟨seq, c, s, hp, e, hd⟩ := decodeCommandAck_cases b
  · exact absurd h hrej
  rw [decodeCommandAck_frame hd] at h
  cases hc : CommandDetail.decodeCommand c with
  | none => simp [hc, CommandAckDecodeResult.ok] at h
  | some command =>
    cases hs : decodeAckStatus s with
    | none => simp [hc, hs, CommandAckDecodeResult.ok] at h
    | some status =>
      have hid := encodeCommand_decodeId hc
      have hst := encodeAckStatus_decode hs
      refine ⟨⟨seq, command, status⟩, named_of_encodeCommand hid, named_of_encodeAckStatus hst, ?_⟩
      rw [e, ackPayload, hid, hst]
      rfl

/-- What `encode_command_ack` outputs, `decode_command_ack` reads back. -/
lemma decodeCommandAck_encode {message : CommandAckMessage} (hc : message.command.Named)
    (hs : message.status.Named) :
    (encodeCommandAck message).ok ∧
      decodeCommandAck (encodeCommandAck message).frame.view = { message } := by
  obtain ⟨hok, hview⟩ := encodeCommandAck_wire hc hs
  rw [hview]
  exact ⟨hok, decodeCommandAck_wire hc hs⟩

/-- What `encode_command_ack` outputs is an acknowledgement frame. -/
lemma decode_encodeCommandAck {message : CommandAckMessage} (hc : message.command.Named)
    (hs : message.status.Named) :
    ∃ frame, decode (encodeCommandAck message).frame.view = { frame } ∧
      frame.messageType = .commandAck := by
  obtain ⟨-, hview⟩ := encodeCommandAck_wire hc hs
  obtain ⟨c, hc⟩ := hc.encode
  obtain ⟨s, hs⟩ := hs.encode
  have hp : 0 + (ackPayload message).length ≤ maximumPayloadSize := by
    rw [ackPayload, hc, hs]
    exact Nat.le_of_ble_eq_true rfl
  rw [hview, @decode_wire .commandAck _ _ _ rfl hp]
  exact ⟨_, rfl, rfl⟩

/-- What `decode_command_ack` accepts, `encode_command_ack` writes back. -/
lemma encodeCommandAck_decode {b : List UInt8} (h : (decodeCommandAck b).ok) :
    (encodeCommandAck (decodeCommandAck b).message).ok ∧
      (encodeCommandAck (decodeCommandAck b).message).frame.view = b := by
  obtain ⟨message, hc, hs, e⟩ := decodeCommandAck_inv h
  have hd : (decodeCommandAck b).message = message := by
    rw [e, decodeCommandAck_wire hc hs]
  obtain ⟨hok, hview⟩ := encodeCommandAck_wire hc hs
  rw [hd]
  exact ⟨hok, hview.trans e.symm⟩

/-- Encoding fails exactly on values outside the enumerators. -/
lemma named_of_encodeCommandAck {message : CommandAckMessage} (h : (encodeCommandAck message).ok) :
    message.command.Named ∧ message.status.Named := by
  constructor
  · intro e
    simp [encodeCommandAck, e, CommandDetail.encodeCommand, CommandAckEncodeResult.ok] at h
  · intro e
    unfold encodeCommandAck at h
    split at h
    · cases h
    · simp [e, encodeAckStatus, CommandAckEncodeResult.ok] at h

/-- A command frame has the type of a command. -/
lemma messageType_of_decodeCommand {b : List UInt8} (h : (decodeCommand b).ok) :
    (decode b).frame.messageType = .command := by
  by_contra ht
  by_cases hok : (decode b).ok
  · simp [decodeCommand, hok, ht, CommandDecodeResult.ok] at h
  · simp [decodeCommand, hok, CommandDecodeResult.ok] at h

/-- A frame of type Command with a known id and the payload length of that command. -/
def Frame.CarriesCommand (frame : Frame) : Prop :=
  frame.messageType = .command ∧ ∃ command,
    frame.payload[0]?.bind CommandDetail.decodeCommand = some command ∧
      frame.payloadLength = if command = .setTelemetryPeriod then 5 else 1

/-- `decode_command` accepts the intact frames that carry a command. -/
lemma decodeCommand_ok_iff {b : List UInt8} :
    (decodeCommand b).ok ↔ (decode b).ok ∧ (decode b).frame.CarriesCommand := by
  have h0 : (decode b).frame.payload[0]? = some (decode b).frame.payload[0] :=
    Vector.getElem?_eq_getElem _
  rw [Frame.CarriesCommand, decodeCommand, h0, Option.bind_some]
  by_cases hok : (decode b).ok
  case neg => simp [hok, CommandDecodeResult.ok]
  by_cases ht : (decode b).frame.messageType = .command
  case neg => simp [hok, ht, CommandDecodeResult.ok]
  cases hc : CommandDetail.decodeCommand (decode b).frame.payload[0] with
  | none => by_cases hl : (decode b).frame.payloadLength = 0 <;> simp [hok, ht, hl, CommandDecodeResult.ok]
  | some command =>
    have hl : (if command = .setTelemetryPeriod then 5 else 1 : UInt16) ≠ 0 := by split <;> decide
    by_cases hlen : (decode b).frame.payloadLength = if command = .setTelemetryPeriod then 5 else 1
    case pos => simp [hok, ht, hlen, hl, CommandDecodeResult.ok]
    by_cases hl0 : (decode b).frame.payloadLength = 0
    · simp [hok, ht, hl0, hl.symm, CommandDecodeResult.ok]
    · simp [hok, ht, hlen, hl0, CommandDecodeResult.ok]

/-- A decoded command has the sequence number of its frame, and its id is the first payload byte. -/
lemma message_decodeCommand {b : List UInt8} (h : (decodeCommand b).ok) :
    (decodeCommand b).message.sequence = (decode b).frame.sequence ∧
      (decode b).frame.payload[0]?.bind CommandDetail.decodeCommand =
        some (decodeCommand b).message.command := by
  obtain ⟨hok, ht, command, hc, hlen⟩ := decodeCommand_ok_iff.mp h
  have h0 : (decode b).frame.payload[0]? = some (decode b).frame.payload[0] :=
    Vector.getElem?_eq_getElem _
  rw [h0, Option.bind_some] at hc ⊢
  have hl : ¬ (if command = .setTelemetryPeriod then 5 else 1 : UInt16) = 0 := by split <;> decide
  simp [decodeCommand, hok, ht, hc, hlen, hl]

/-- An acknowledgement frame has the type of an acknowledgement. -/
lemma messageType_of_decodeCommandAck {b : List UInt8} (h : (decodeCommandAck b).ok) :
    (decode b).frame.messageType = .commandAck := by
  by_contra ht
  by_cases hok : (decode b).ok
  · simp [decodeCommandAck, hok, ht, CommandAckDecodeResult.ok] at h
  · simp [decodeCommandAck, hok, CommandAckDecodeResult.ok] at h

/-- The two codecs are exact bijections, up to the period of a command that has none, between the
messages and the byte strings that their decoders accept, and these are disjoint. -/
theorem command_codecs_bijective :
    (∀ message : CommandMessage, message.command.Named →
      (encodeCommand message).ok ∧ (decodeCommand (encodeCommand message).frame.view).ok ∧
        (decodeCommand (encodeCommand message).frame.view).message =
          { message with
            periodMs := if message.command = .setTelemetryPeriod then message.periodMs else 0 }) ∧
    (∀ message : CommandAckMessage, message.command.Named → message.status.Named →
      (encodeCommandAck message).ok ∧ (decodeCommandAck (encodeCommandAck message).frame.view).ok ∧
        (decodeCommandAck (encodeCommandAck message).frame.view).message = message) ∧
    (∀ b : List UInt8, (decodeCommand b).ok →
      (encodeCommand (decodeCommand b).message).ok ∧
        (encodeCommand (decodeCommand b).message).frame.view = b) ∧
    (∀ b : List UInt8, (decodeCommandAck b).ok →
      (encodeCommandAck (decodeCommandAck b).message).ok ∧
        (encodeCommandAck (decodeCommandAck b).message).frame.view = b) ∧
    ∀ b : List UInt8, ¬ ((decodeCommand b).ok ∧ (decodeCommandAck b).ok) := by
  refine ⟨?_, ?_, fun b h => (encodeCommand_decode h).2, fun b h => encodeCommandAck_decode h, ?_⟩
  · intro message h
    obtain ⟨hok, hd⟩ := decodeCommand_encode h
    rw [hd]
    exact ⟨hok, rfl, rfl⟩
  · intro message hc hs
    obtain ⟨hok, hd⟩ := decodeCommandAck_encode hc hs
    rw [hd]
    exact ⟨hok, rfl, rfl⟩
  · rintro b ⟨hc, ha⟩
    have ht := messageType_of_decodeCommand hc
    rw [messageType_of_decodeCommandAck ha] at ht
    cases ht

end ApogeeFC.Codec
