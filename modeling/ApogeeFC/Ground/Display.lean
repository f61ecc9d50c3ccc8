import ApogeeFC.Ground.Grammar
import ApogeeFC.Lib.Text

/-!
# What the display gives away

The ground prints messages as text. Nothing is lost: the text can be read back in one way only, line by
line and field by field (`telemetryLine_legible`, `acknowledgementLine_legible`), so what is printed
determines the messages, and with them every byte that was received (`display_faithful`).
-/

namespace ApogeeFC.Ground
open Codec Flight Text

/-- What the fields of a line are written in. -/
def Solid (c : Char) : Prop := c ≠ ' ' ∧ c ≠ '\n'

instance (c : Char) : Decidable (Solid c) := inferInstanceAs (Decidable (_ ∧ _))

lemma solid_of_digit {c : Char} (h : c.isDigit) : Solid c := by
  constructor
  · intro e
    subst e
    cases h
  · intro e
    subst e
    cases h

lemma spelled_u16 : Spelled Solid fun n : UInt16 => (toString n).toList :=
  (spelled_nat.mono fun _ => solid_of_digit).comp fun _ _ => UInt16.toNat_inj.mp

lemma spelled_u32 : Spelled Solid fun n : UInt32 => (toString n).toList :=
  (spelled_nat.mono fun _ => solid_of_digit).comp fun _ _ => UInt32.toNat_inj.mp

lemma spelled_u64 : Spelled Solid fun n : UInt64 => (toString n).toList :=
  (spelled_nat.mono fun _ => solid_of_digit).comp fun _ _ => UInt64.toNat_inj.mp

lemma spelled_i16 : Spelled Solid fun n : Int16 => (toString n).toList := by
  have hsolid : ∀ c : Char, c.isDigit ∨ c = '-' → Solid c := by
    intro c h
    rcases h with h | h
    · exact solid_of_digit h
    · subst h
      exact ⟨by decide, by decide⟩
  exact (spelled_int.mono hsolid).comp fun _ _ => Int16.toInt_inj.mp

lemma solid_of_all {s : String} (h : s.toList.all fun c => decide (Solid c)) :
    ∀ c ∈ s.toList, Solid c :=
  fun c hc => of_decide_eq_true (List.all_eq_true.mp h c hc)

lemma spelled_modeName : Spelled Solid fun mode => (modeName mode).toList := by
  constructor
  · intro mode
    apply solid_of_all
    cases mode <;> rfl
  · intro mode mode' e
    have hnames := String.toList_inj.mp e
    cases mode <;> cases mode' <;> first | rfl | exact absurd hnames (by decide)

lemma spelled_commandName : Spelled Solid fun command => (commandName command).toList := by
  constructor
  · intro command
    apply solid_of_all
    cases command <;> rfl
  · intro command command' e
    have hnames := String.toList_inj.mp e
    cases command <;> cases command' <;> first | rfl | exact absurd hnames (by decide)

lemma spelled_acknowledgementName :
    Spelled Solid fun status => (acknowledgementName status).toList := by
  constructor
  · intro status
    apply solid_of_all
    cases status <;> rfl
  · intro status status' e
    have hnames := String.toList_inj.mp e
    cases status <;> cases status' <;> first | rfl | exact absurd hnames (by decide)

/-- A field between its label and what follows it. -/
lemma field_split {α : Type} {f : α → List Char} (h : Spelled Solid f) {label next : String}
    {a b : α} {rest rest' : List Char}
    (e : label.toList ++ (f a ++ (next.toList ++ rest)) =
      label.toList ++ (f b ++ (next.toList ++ rest')))
    (hn : next.toList.head? = some ' ' ∨ next.toList.head? = some '\n') :
    a = b ∧ next.toList ++ rest = next.toList ++ rest' := by
  have hstops : ∀ rest, Stops Solid (next.toList ++ rest) := by
    intro rest c hc
    rw [List.head?_append] at hc
    rcases hn with hn | hn
    · rw [hn] at hc
      cases hc
      exact fun hs => hs.1 rfl
    · rw [hn] at hc
      cases hc
      exact fun hs => hs.2 rfl
  exact h.split (hstops _) (hstops _) (List.append_cancel_left e)

lemma telemetryLine_legible : Legible fun message => (telemetryLine message).toList := by
  intro m m' rest rest' e
  obtain ⟨⟨sequence, uptimeMs, mode, battery, temperature, current⟩, mask⟩ := m
  obtain ⟨⟨sequence', uptimeMs', mode', battery', temperature', current'⟩, mask'⟩ := m'
  dsimp only at e
  unfold telemetryLine at e
  simp only [String.toList_append, List.append_assoc] at e
  obtain ⟨e1, e⟩ := field_split spelled_u32 e (.inl rfl)
  obtain ⟨e2, e⟩ := field_split spelled_u64 e (.inl rfl)
  obtain ⟨e3, e⟩ := field_split spelled_modeName e (.inl rfl)
  obtain ⟨e4, e⟩ := field_split spelled_u16 e (.inl rfl)
  obtain ⟨e5, e⟩ := field_split spelled_i16 e (.inl rfl)
  obtain ⟨e6, e⟩ := field_split spelled_u16 e (.inl rfl)
  obtain ⟨e7, erest⟩ := field_split spelled_u32 e (.inr rfl)
  subst e1; subst e2; subst e3; subst e4; subst e5; subst e6; subst e7
  exact ⟨rfl, List.append_cancel_left erest⟩

lemma acknowledgementLine_legible : Legible fun message => (acknowledgementLine message).toList := by
  intro m m' rest rest' e
  obtain ⟨sequence, command, status⟩ := m
  obtain ⟨sequence', command', status'⟩ := m'
  dsimp only at e
  unfold acknowledgementLine at e
  simp only [String.toList_append, List.append_assoc] at e
  obtain ⟨e1, e⟩ := field_split spelled_u32 e (.inl rfl)
  obtain ⟨e2, e⟩ := field_split spelled_commandName e (.inl rfl)
  obtain ⟨e3, erest⟩ := field_split spelled_acknowledgementName e (.inr rfl)
  subst e1; subst e2; subst e3
  exact ⟨rfl, List.append_cancel_left erest⟩

/-- The first letter tells telemetry from an acknowledgement. -/
lemma head_telemetryLine (message : TelemetryMessage) (rest : List Char) :
    ((telemetryLine message).toList ++ rest).head? = some 's' := by
  unfold telemetryLine
  simp only [String.toList_append, List.append_assoc]
  rfl

lemma head_acknowledgementLine (message : CommandAckMessage) (rest : List Char) :
    ((acknowledgementLine message).toList ++ rest).head? = some 'a' := by
  unfold acknowledgementLine
  simp only [String.toList_append, List.append_assoc]
  rfl

lemma line_ne (t : TelemetryMessage) (a : CommandAckMessage) (rest rest' : List Char) :
    (telemetryLine t).toList ++ rest ≠ (acknowledgementLine a).toList ++ rest' := by
  intro e
  have hhead := congrArg List.head? e
  rw [head_telemetryLine, head_acknowledgementLine] at hhead
  exact absurd hhead (by decide)

lemma line_legible : Legible fun message => (GroundMessage.line message).toList := by
  intro m m' rest rest' e
  cases m with
  | telemetry message =>
    cases m' with
    | telemetry message' =>
      obtain ⟨em, erest⟩ := telemetryLine_legible e
      exact ⟨congrArg _ em, erest⟩
    | acknowledgement message' => exact absurd e (line_ne _ _ _ _)
  | acknowledgement message =>
    cases m' with
    | telemetry message' => exact absurd e.symm (line_ne _ _ _ _)
    | acknowledgement message' =>
      obtain ⟨em, erest⟩ := acknowledgementLine_legible e
      exact ⟨congrArg _ em, erest⟩

lemma line_ne_nil (message : GroundMessage) : message.line.toList ≠ [] := by
  intro e
  cases message with
  | telemetry message =>
    have hhead := head_telemetryLine message []
    rw [List.append_nil, show (telemetryLine message).toList = [] from e] at hhead
    cases hhead
  | acknowledgement message =>
    have hhead := head_acknowledgementLine message []
    rw [List.append_nil, show (acknowledgementLine message).toList = [] from e] at hhead
    cases hhead

/-- What is printed determines the messages. -/
lemma transcript_injective : Function.Injective transcript := by
  intro messages messages' e
  have hjoin := congrArg String.toList e
  rw [transcript, transcript, String.toList_join, String.toList_join, List.flatMap_map,
    List.flatMap_map] at hjoin
  exact line_legible.flatMap_injective line_ne_nil hjoin

/-- What is printed determines what was received. If two sessions end without a complaint, in whatever
chunks, they have printed the same if and only if they have received the same bytes. -/
theorem display_faithful (chunks chunks' : List (List UInt8))
    (processor processor' : GroundStreamProcessor)
    (h : GroundStreamProcessor.session {} chunks = some processor)
    (h' : GroundStreamProcessor.session {} chunks' = some processor')
    (hclean : processor.malformedInput = false) (hclean' : processor'.malformedInput = false) :
    processor.output = processor'.output ↔ chunks.flatten = chunks'.flatten := by
  obtain ⟨p, hp, hgrammar, hrec⟩ := session_grammar chunks
  rw [h] at hp
  cases hp
  obtain ⟨p', hp', hgrammar', hrec'⟩ := session_grammar chunks'
  rw [h'] at hp'
  cases hp'
  obtain ⟨messages, hm⟩ := hgrammar.mp hclean
  obtain ⟨messages', hm'⟩ := hgrammar'.mp hclean'
  constructor
  · intro e
    rw [(hrec messages hm).output, (hrec' messages' hm').output] at e
    have hsame := transcript_injective e
    subst hsame
    exact hm.2.trans hm'.2.symm
  · intro e
    rw [← e] at hrec'
    rw [(hrec messages hm).output, (hrec' messages hm).output]

/-- An acknowledgement and a telemetry message, received at once and in three chunks. -/
theorem display_faithful_chunks :
    ∃ processor processor',
      GroundStreamProcessor.session {}
        [(encodeCommandAck ⟨1, .ping, .accepted⟩).frame.view ++
          (encodeTelemetry ⟨⟨0, 1000, .safe, ⟨7400, -150, 320⟩⟩, 2⟩).frame.view] = some processor ∧
      GroundStreamProcessor.session {}
        [(encodeCommandAck ⟨1, .ping, .accepted⟩).frame.view.take 3,
          (encodeCommandAck ⟨1, .ping, .accepted⟩).frame.view.drop 3,
          (encodeTelemetry ⟨⟨0, 1000, .safe, ⟨7400, -150, 320⟩⟩, 2⟩).frame.view] = some processor' ∧
      processor.output = processor'.output := by
  have h : (GroundStreamProcessor.session {}
      [(encodeCommandAck ⟨1, .ping, .accepted⟩).frame.view ++
        (encodeTelemetry ⟨⟨0, 1000, .safe, ⟨7400, -150, 320⟩⟩, 2⟩).frame.view]).map
      GroundStreamProcessor.malformedInput = some false := by decide +kernel
  have h' : (GroundStreamProcessor.session {}
      [(encodeCommandAck ⟨1, .ping, .accepted⟩).frame.view.take 3,
        (encodeCommandAck ⟨1, .ping, .accepted⟩).frame.view.drop 3,
        (encodeTelemetry ⟨⟨0, 1000, .safe, ⟨7400, -150, 320⟩⟩, 2⟩).frame.view]).map
      GroundStreamProcessor.malformedInput = some false := by decide +kernel
  obtain ⟨processor, hs, hclean⟩ := Option.map_eq_some_iff.mp h
  obtain ⟨processor', hs', hclean'⟩ := Option.map_eq_some_iff.mp h'
  have hsame := display_faithful _ _ processor processor' hs hs' hclean hclean'
  refine ⟨processor, processor', hs, hs', hsame.mpr ?_⟩
  simp [← List.append_assoc]

end ApogeeFC.Ground
