import ApogeeFC.Codec.CommandWire
import ApogeeFC.Codec.TelemetryWire

/-!
# What a rejection shows

The decoders fill their result field by field, and return it as it is when a check fails. Three of them
make all their checks first, so a rejected input leaves the result as it was initialised.
`decode_command_ack` stores the command before it checks the status. So it shows the command of an
acknowledgement whose status byte is unknown, which makes a difference unless that is the ping, the
initial value (`rejection_shows_nothing_iff`).
-/

namespace ApogeeFC.Codec
open LittleEndian Detail CommandDetail TelemetryDetail

/-- An intact acknowledgement of a command other than a ping, with an unknown status. -/
def HalfRead (b : List UInt8) : Prop :=
  ∃ seq id status, (id = 2 ∨ id = 3) ∧ 3 < status ∧ b = wire 0x11 seq [id, status]

/-- `decode` fills the frame after its last check. -/
lemma decode_ok_or_default (b : List UInt8) : (decode b).ok ∨ (decode b).frame = {} := by
  unfold decode
  split
  · exact .inr rfl
  dsimp only
  split
  · exact .inr rfl
  split
  · exact .inr rfl
  split
  · exact .inr rfl
  split
  · exact .inr rfl
  split
  · exact .inr rfl
  split
  · exact .inr rfl
  split
  · exact .inr rfl
  · exact .inl rfl

/-- So does `decode_command`. -/
lemma decodeCommand_ok_or_default (b : List UInt8) :
    (decodeCommand b).ok ∨ (decodeCommand b).message = {} := by
  unfold decodeCommand
  dsimp only
  split
  · exact .inr rfl
  split
  · exact .inr rfl
  split
  · exact .inr rfl
  split
  · exact .inr rfl
  rename_i command _
  generalize (if command = .setTelemetryPeriod then (5 : UInt16) else 1) = requiredLength
  split
  · exact .inr rfl
  · exact .inl rfl

/-- So does `decode_telemetry`. -/
lemma decodeTelemetry_ok_or_default (b : List UInt8) :
    (decodeTelemetry b).ok ∨ (decodeTelemetry b).message = {} := by
  unfold decodeTelemetry
  dsimp only
  split
  · exact .inr rfl
  split
  · exact .inr rfl
  split
  · exact .inr rfl
  split
  · exact .inr rfl
  · exact .inl rfl

/-- The bytes of the commands other than a ping. -/
lemma decodeCommand_eq_some_iff {id : UInt8} :
    (∃ command, CommandDetail.decodeCommand id = some command ∧ command ≠ .ping) ↔
      id = 2 ∨ id = 3 := by
  constructor
  · rintro ⟨command, h, hne⟩
    unfold CommandDetail.decodeCommand at h
    split at h
    · cases h
      exact absurd rfl hne
    · exact .inl rfl
    · exact .inr rfl
    · cases h
  · rintro (e | e)
    · subst e
      exact ⟨_, rfl, by decide⟩
    · subst e
      exact ⟨_, rfl, by decide⟩

/-- The bytes of no status. -/
lemma decodeAckStatus_eq_none_iff {status : UInt8} : decodeAckStatus status = none ↔ 3 < status := by
  unfold decodeAckStatus
  split
  case h_5 h0 h1 h2 h3 =>
    refine iff_of_true rfl ?_
    rw [UInt8.lt_iff_toNat_lt]
    by_contra hle
    have h : status.toNat = 0 ∨ status.toNat = 1 ∨ status.toNat = 2 ∨ status.toNat = 3 := by
      change ¬ 3 < _ at hle
      omega
    obtain e | e | e | e := h
    · exact h0 (UInt8.toNat_inj.mp e)
    · exact h1 (UInt8.toNat_inj.mp e)
    · exact h2 (UInt8.toNat_inj.mp e)
    · exact h3 (UInt8.toNat_inj.mp e)
  all_goals exact iff_of_false nofun (by decide)

/-- `decode_command_ack` shows something of a rejected acknowledgement exactly if it stops half-way. -/
lemma decodeCommandAck_shows_iff {b : List UInt8} :
    ¬ (decodeCommandAck b).ok ∧ (decodeCommandAck b).message ≠ {} ↔ HalfRead b := by
  constructor
  · rintro ⟨hrej, hshow⟩
    obtain ⟨-, hdefault⟩ | ⟨seq, id, status, hp, e, hd⟩ := decodeCommandAck_cases b
    · exact absurd hdefault hshow
    rw [decodeCommandAck_frame hd] at hrej hshow
    cases hid : CommandDetail.decodeCommand id with
    | none => simp [hid] at hshow
    | some command =>
      cases hst : decodeAckStatus status with
      | some status => simp [hid, hst, CommandAckDecodeResult.ok] at hrej
      | none =>
        have hne : command ≠ .ping := by simpa [hid, hst] using hshow
        exact ⟨seq, id, status, decodeCommand_eq_some_iff.mp ⟨command, hid, hne⟩,
          decodeAckStatus_eq_none_iff.mp hst, e⟩
  · rintro ⟨seq, id, status, hid, hst, e⟩
    obtain ⟨command, hid, hne⟩ := decodeCommand_eq_some_iff.mpr hid
    have hd := @decode_wire .commandAck 0x11 seq [id, status] rfl (Nat.le_of_ble_eq_true rfl)
    rw [e, decodeCommandAck_frame hd, hid, decodeAckStatus_eq_none_iff.mpr hst]
    simp [CommandAckDecodeResult.ok, hne]

/-- No decoder shows anything of an input it rejects, unless the input is an acknowledgement that
`decode_command_ack` reads half-way. -/
theorem rejection_shows_nothing_iff (b : List UInt8) :
    ((¬ (decode b).ok → (decode b).frame = {}) ∧
      (¬ (decodeCommand b).ok → (decodeCommand b).message = {}) ∧
      (¬ (decodeCommandAck b).ok → (decodeCommandAck b).message = {}) ∧
      (¬ (decodeTelemetry b).ok → (decodeTelemetry b).message = {})) ↔ ¬ HalfRead b := by
  rw [← decodeCommandAck_shows_iff]
  constructor
  · rintro ⟨-, -, hack, -⟩ ⟨hrej, hshow⟩
    exact hshow (hack hrej)
  · intro h
    refine ⟨(decode_ok_or_default b).resolve_left, (decodeCommand_ok_or_default b).resolve_left, ?_,
      (decodeTelemetry_ok_or_default b).resolve_left⟩
    intro hrej
    by_contra hshow
    exact h ⟨hrej, hshow⟩

/-- An acknowledgement of the command for safe mode with sequence number 7 and status 4. -/
def unknownStatusAck : List UInt8 := wire 0x11 7 [2, 4]

theorem unknownStatusAck_shows_command :
    ¬ (¬ (decodeCommandAck unknownStatusAck).ok → (decodeCommandAck unknownStatusAck).message = {}) := by
  decide +kernel

end ApogeeFC.Codec
