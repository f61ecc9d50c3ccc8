import ApogeeFC.Ground.Sequencer
import ApogeeFC.Lib.Strip
import Mathlib.Data.Nat.Digits.Defs

/-!
# The grammar of the command line

The lines an operator can type, as a grammar (`WordLine`, `PeriodLine`), and that `CommandSequencer.parse`
accepts exactly these. `Reads` says what each kind of line makes `parse` return. Every result is of this
form (`parse_reads`), and every line of the grammar gets its result (`parse_word`, `parse_period`), so
the kinds of lines and the kinds of results determine each other (`parse_grammar`).
-/

namespace ApogeeFC.Ground
open Codec Strip

/-- Only white space. -/
abbrev White (text : List Char) : Prop := Blank (fun c => c ∈ whitespace) text

/-- A word with white space around it. -/
def WordLine (word line : List Char) : Prop :=
  ∃ before after, White before ∧ White after ∧ line = before ++ word ++ after

/-- The value of decimal digits, the most significant first. -/
def decimalValue (digits : List Char) : Nat :=
  Nat.ofDigits 10 (digits.reverse.map fun c => c.toNat - '0'.toNat)

/-- `period`, a blank or a tab, and digits of this value, with white space around and between them. -/
def PeriodLine (value : Nat) (line : List Char) : Prop :=
  ∃ before sep gap digits after, White before ∧ (sep = ' ' ∨ sep = '\t') ∧ White gap ∧
    digits ≠ [] ∧ (∀ c ∈ digits, c.isDigit) ∧ decimalValue digits = value ∧ White after ∧
    line = before ++ "period".toList ++ sep :: gap ++ digits ++ after

/-- `trim` is the stripping of white space. -/
lemma trim_eq_strip (text : List Char) : trim text = strip (fun c => c ∈ whitespace) text := rfl

/-- The value that `from_chars` computes from left to right. -/
lemma foldl_digits (digits : List Char) :
    digits.foldl (fun value c => 10 * value + (c.toNat - '0'.toNat)) 0 = decimalValue digits := by
  induction digits using List.reverseRecOn with
  | nil => rfl
  | append_singleton digits c ih =>
    rw [List.foldl_append, List.foldl_cons, List.foldl_nil, ih, decimalValue, decimalValue,
      List.reverse_append, List.reverse_singleton, List.singleton_append, List.map_cons,
      Nat.ofDigits_cons]
    simp [Nat.add_comm]

/-- `from_chars` reads a whole text exactly if it is digits and their value is in range. -/
lemma fromChars_iff {text : List Char} {value : UInt32} :
    fromChars text = some (value, []) ↔
      text ≠ [] ∧ (∀ c ∈ text, c.isDigit) ∧ decimalValue text = value.toNat := by
  rw [fromChars, foldl_digits]
  constructor
  · intro h
    split at h
    case isTrue => cases h
    case isFalse hc =>
      obtain ⟨hne, hlt⟩ := not_or.mp hc
      rw [Option.some.injEq, Prod.mk.injEq, List.dropWhile_eq_nil_iff] at h
      obtain ⟨e, hall⟩ := h
      have htake : text.takeWhile Char.isDigit = text := List.takeWhile_eq_self_iff.mpr hall
      rw [htake] at hne hlt e
      refine ⟨hne, hall, ?_⟩
      rw [← e, UInt32.toNat_ofNat', Nat.mod_eq_of_lt (Nat.lt_of_not_le hlt)]
  · rintro ⟨hne, hall, hv⟩
    have htake : text.takeWhile Char.isDigit = text := List.takeWhile_eq_self_iff.mpr hall
    rw [htake, hv, if_neg, UInt32.ofNat_toNat, List.dropWhile_eq_nil_iff.mpr hall]
    exact not_or.mpr ⟨hne, Nat.not_le.mpr value.toNat_lt_size⟩

/-- A digit is not white space. -/
lemma not_white_of_digit {c : Char} (h : c.isDigit) : ¬ c ∈ whitespace := by
  intro hc
  have hall : whitespace.all fun c => !c.isDigit := rfl
  have hnot := List.all_eq_true.mp hall c hc
  rw [h] at hnot
  cases hnot

/-- What a line is, by the result of `parse`. -/
inductive Reads (sequencer : CommandSequencer) (line : List Char) :
    CommandSequencer × LocalCommandResult → Prop
  | quit : WordLine "quit".toList line → Reads sequencer line (sequencer, { status := .quit })
  | ping : WordLine "ping".toList line → Reads sequencer line (sequencer.makeCommand .ping 0)
  | safe : WordLine "safe".toList line → Reads sequencer line (sequencer.makeCommand .enterSafeMode 0)
  | period {value : UInt32} : PeriodLine value.toNat line →
    Reads sequencer line (sequencer.makeCommand .setTelemetryPeriod value)
  | invalid : Reads sequencer line (sequencer, {})

/-- The lines that are trimmed to a word. -/
lemma trim_eq_iff {word : List Char} (hw : trim word = word) (line : List Char) :
    trim line = word ↔ WordLine word line := by
  rw [trim_eq_strip] at hw ⊢
  exact strip_eq_iff hw line

/-- The text behind `period` starts with the blank or tab that the parser asked for. -/
lemma period_split {text : List Char}
    (h : ¬ (¬ "period".toList <+: text ∨ text.length = "period".toList.length ∨
      text["period".toList.length]? ≠ some ' ' ∧ text["period".toList.length]? ≠ some '\t')) :
    ∃ sep rest, (sep = ' ' ∨ sep = '\t') ∧ text = "period".toList ++ sep :: rest := by
  obtain ⟨hp, h⟩ := not_or.mp h
  obtain ⟨-, hsep⟩ := not_or.mp h
  obtain ⟨rest, e⟩ := not_not.mp hp
  subst e
  rw [List.getElem?_append_right (Nat.le_refl _), Nat.sub_self] at hsep
  cases rest with
  | nil => simp at hsep
  | cons sep rest =>
    rw [List.getElem?_cons_zero, not_and_or, not_ne_iff, not_ne_iff, Option.some.injEq,
      Option.some.injEq] at hsep
    exact ⟨sep, rest, hsep, rfl⟩

/-- The white space in front of the digits starts with that blank or tab. -/
lemma periodLine_of_trim {line rest : List Char} {sep : Char} {value : Nat}
    (e : trim line = "period".toList ++ sep :: rest) (hsep : sep = ' ' ∨ sep = '\t')
    (hne : trim (sep :: rest) ≠ []) (hall : ∀ c ∈ trim (sep :: rest), c.isDigit)
    (hval : decimalValue (trim (sep :: rest)) = value) : PeriodLine value line := by
  obtain ⟨before, after, hb, ha, el⟩ := strip_split (fun c => c ∈ whitespace) line
  obtain ⟨gap, behind, hg, hbh, er⟩ := strip_split (fun c => c ∈ whitespace) (sep :: rest)
  rw [← trim_eq_strip] at el er
  generalize trim (sep :: rest) = digits at hne hall hval er
  cases gap with
  | nil =>
    obtain ⟨d, digits, ed⟩ := List.exists_cons_of_ne_nil hne
    subst ed
    injection er with es _
    have hd : sep.isDigit := by
      rw [es]
      exact hall d (by simp)
    obtain es | es := hsep
    · rw [es] at hd
      cases hd
    · rw [es] at hd
      cases hd
  | cons c gap =>
    rw [List.cons_append, List.cons_append] at er
    injection er with es er
    subst es
    refine ⟨before, sep, gap, digits, behind ++ after, hb, hsep, ?_, hne, hall, hval,
      hbh.append ha, ?_⟩
    · exact fun c hc => hg c (List.mem_cons_of_mem _ hc)
    · rw [el, e, er]
      simp only [List.append_assoc, List.cons_append]

/-- What `parse` returns says what the line is. -/
lemma parse_reads (sequencer : CommandSequencer) (line : List Char) :
    Reads sequencer line (sequencer.parse line) := by
  unfold CommandSequencer.parse
  dsimp only
  split
  case isTrue h => exact .quit ((trim_eq_iff (by decide) line).mp h)
  split
  case isTrue h => exact .ping ((trim_eq_iff (by decide) line).mp h)
  split
  case isTrue h => exact .safe ((trim_eq_iff (by decide) line).mp h)
  split
  case isTrue => exact .invalid
  case isFalse h =>
    obtain ⟨sep, rest, hsep, e⟩ := period_split h
    rw [e, List.drop_left]
    split
    · exact .invalid
    split
    case h_1 value hv =>
      obtain ⟨hne, hall, hval⟩ := fromChars_iff.mp hv
      exact .period (periodLine_of_trim e hsep hne hall hval)
    · exact .invalid

/-- The lines of a word. -/
lemma parse_word (sequencer : CommandSequencer) {line : List Char} :
    (WordLine "quit".toList line → sequencer.parse line = (sequencer, { status := .quit })) ∧
      (WordLine "ping".toList line → sequencer.parse line = sequencer.makeCommand .ping 0) ∧
      (WordLine "safe".toList line → sequencer.parse line = sequencer.makeCommand .enterSafeMode 0) := by
  refine ⟨fun h => ?_, fun h => ?_, fun h => ?_⟩
  all_goals
    have ht := (trim_eq_iff (by decide) line).mpr h
    simp [CommandSequencer.parse, ht]

/-- Trimming stops at digits. -/
lemma trim_digits {digits : List Char} (hall : ∀ c ∈ digits, c.isDigit) : trim digits = digits := by
  rw [trim_eq_strip]
  apply strip_self
  · intro c hc
    simpa using not_white_of_digit (hall c (List.mem_of_head? hc))
  · intro c hc
    simpa using not_white_of_digit (hall c (List.mem_of_getLast? hc))

lemma trim_gap {gap digits : List Char} (hg : White gap) (hall : ∀ c ∈ digits, c.isDigit) :
    trim (gap ++ digits) = digits := by
  have hnil : White [] := fun c hc => absurd hc List.not_mem_nil
  have hs := strip_append hg hnil digits
  rw [List.append_nil, ← trim_eq_strip, ← trim_eq_strip] at hs
  exact hs.trans (trim_digits hall)

/-- A line is trimmed to a text that starts with a letter and ends with digits. -/
lemma trim_line {before text digits after : List Char} (hb : White before) (ha : White after)
    (hf : ∀ c ∈ text.head?, ¬ c ∈ whitespace) (ht : text ≠ []) (hne : digits ≠ [])
    (hall : ∀ c ∈ digits, c.isDigit) :
    trim (before ++ (text ++ digits) ++ after) = text ++ digits := by
  rw [trim_eq_strip, strip_append hb ha]
  apply strip_self
  · intro c hc
    rw [List.head?_append_of_ne_nil _ ht] at hc
    simpa using hf c hc
  · intro c hc
    rw [List.getLast?_append_of_ne_nil _ hne] at hc
    simpa using not_white_of_digit (hall c (List.mem_of_getLast? hc))

/-- The lines of a period. -/
lemma parse_period (sequencer : CommandSequencer) {line : List Char} {value : UInt32}
    (h : PeriodLine value.toNat line) :
    sequencer.parse line = sequencer.makeCommand .setTelemetryPeriod value := by
  obtain ⟨before, sep, gap, digits, after, hb, hsep, hg, hne, hall, hval, ha, e⟩ := h
  have hgap : White (sep :: gap) := by
    refine List.forall_mem_cons.mpr ⟨?_, hg⟩
    obtain es | es := hsep
    · subst es
      decide
    · subst es
      decide
  have htext : trim line = "period".toList ++ (sep :: gap ++ digits) := by
    have hp : ∀ c ∈ ("period".toList ++ sep :: gap).head?, ¬ c ∈ whitespace := by
      intro c hc
      cases hc
      decide
    have hs := trim_line hb ha hp (by simp) hne hall
    rw [e]
    simp only [List.append_assoc] at hs ⊢
    exact hs
  have hvalue : trim (sep :: gap ++ digits) = digits := trim_gap hgap hall
  have hsep' : ¬ (some sep ≠ some ' ' ∧ some sep ≠ some '\t') := by
    rw [not_and_or, not_ne_iff, not_ne_iff, Option.some.injEq, Option.some.injEq]
    exact hsep
  rw [CommandSequencer.parse]
  dsimp only
  rw [htext, if_neg (by simp), if_neg (by simp), if_neg (by simp), if_neg, List.drop_left, hvalue,
    if_neg hne, fromChars_iff.mpr ⟨hne, hall, hval⟩]
  rw [not_or, not_or, not_not]
  exact ⟨List.prefix_append _ _, by simp, hsep'⟩

/-- The result is this command. -/
def LocalCommandResult.Is (result : LocalCommandResult) (command : CommandId) : Prop :=
  result.status = .command ∧ result.command.command = command

/-- A line of the grammar. -/
def Accepted (line : List Char) : Prop :=
  WordLine "quit".toList line ∨ WordLine "ping".toList line ∨ WordLine "safe".toList line ∨
    ∃ value < 2 ^ 32, PeriodLine value line

/-- What a command says of the line. -/
lemma Reads.command {sequencer : CommandSequencer} {line result} (h : Reads sequencer line result)
    (hs : result.2.status = .command) :
    result.2.command.command = .ping ∧ WordLine "ping".toList line ∨
      result.2.command.command = .enterSafeMode ∧ WordLine "safe".toList line ∨
      result.2.command.command = .setTelemetryPeriod ∧
        PeriodLine result.2.command.periodMs.toNat line := by
  cases h with
  | quit _ => cases hs
  | ping hw => exact .inl ⟨rfl, hw⟩
  | safe hw => exact .inr (.inl ⟨rfl, hw⟩)
  | period hp => exact .inr (.inr ⟨rfl, hp⟩)
  | invalid => cases hs

lemma parse_quit_iff (sequencer : CommandSequencer) (line : List Char) :
    (sequencer.parse line).2.status = .quit ↔ WordLine "quit".toList line := by
  constructor
  · intro h
    have hr := parse_reads sequencer line
    generalize sequencer.parse line = result at hr h
    cases hr with
    | quit hw => exact hw
    | ping _ => cases h
    | safe _ => cases h
    | period _ => cases h
    | invalid => cases h
  · intro h
    rw [(parse_word sequencer).1 h]

lemma parse_ping_iff (sequencer : CommandSequencer) (line : List Char) :
    (sequencer.parse line).2.Is .ping ↔ WordLine "ping".toList line := by
  constructor
  · rintro ⟨h, hc⟩
    obtain ⟨-, hw⟩ | ⟨e, -⟩ | ⟨e, -⟩ := (parse_reads sequencer line).command h
    · exact hw
    · cases e.symm.trans hc
    · cases e.symm.trans hc
  · intro h
    rw [(parse_word sequencer).2.1 h]
    exact ⟨rfl, rfl⟩

lemma parse_safe_iff (sequencer : CommandSequencer) (line : List Char) :
    (sequencer.parse line).2.Is .enterSafeMode ↔ WordLine "safe".toList line := by
  constructor
  · rintro ⟨h, hc⟩
    obtain ⟨e, -⟩ | ⟨-, hw⟩ | ⟨e, -⟩ := (parse_reads sequencer line).command h
    · cases e.symm.trans hc
    · exact hw
    · cases e.symm.trans hc
  · intro h
    rw [(parse_word sequencer).2.2 h]
    exact ⟨rfl, rfl⟩

lemma parse_period_iff (sequencer : CommandSequencer) (line : List Char) (value : Nat) :
    (sequencer.parse line).2.Is .setTelemetryPeriod ∧
        (sequencer.parse line).2.command.periodMs.toNat = value ↔
      value < 2 ^ 32 ∧ PeriodLine value line := by
  constructor
  · rintro ⟨⟨h, hc⟩, hv⟩
    obtain ⟨e, -⟩ | ⟨e, -⟩ | ⟨-, hp⟩ := (parse_reads sequencer line).command h
    · cases e.symm.trans hc
    · cases e.symm.trans hc
    · rw [hv] at hp
      rw [← hv]
      exact ⟨UInt32.toNat_lt _, by rwa [hv]⟩
  · rintro ⟨hlt, hp⟩
    have hv : (UInt32.ofNat value).toNat = value := by
      rw [UInt32.toNat_ofNat', Nat.mod_eq_of_lt hlt]
    rw [← hv] at hp
    rw [parse_period sequencer hp]
    exact ⟨⟨rfl, rfl⟩, hv⟩

lemma parse_invalid_iff (sequencer : CommandSequencer) (line : List Char) :
    (sequencer.parse line).2.status = .invalidSyntax ↔ ¬ Accepted line := by
  constructor
  · rintro h (hw | hw | hw | ⟨value, hlt, hp⟩)
    · rw [(parse_word sequencer).1 hw] at h
      cases h
    · rw [(parse_word sequencer).2.1 hw] at h
      cases h
    · rw [(parse_word sequencer).2.2 hw] at h
      cases h
    · obtain ⟨⟨hs, -⟩, -⟩ := (parse_period_iff sequencer line value).mpr ⟨hlt, hp⟩
      rw [hs] at h
      cases h
  · intro h
    have hr := parse_reads sequencer line
    generalize sequencer.parse line = result at hr
    cases hr with
    | quit hw => exact absurd (.inl hw) h
    | ping hw => exact absurd (.inr (.inl hw)) h
    | safe hw => exact absurd (.inr (.inr (.inl hw))) h
    | @period period hp => exact absurd (.inr (.inr (.inr ⟨_, period.toNat_lt, hp⟩))) h
    | invalid => rfl

/-- Only a command takes a sequence number. -/
lemma parse_sequence (sequencer : CommandSequencer) (line : List Char) :
    ((sequencer.parse line).2.status = .command →
        (sequencer.parse line).2.command.sequence = sequencer.nextSequence ∧
          (sequencer.parse line).1.nextSequence.toNat =
            (sequencer.nextSequence.toNat + 1) % 2 ^ 32) ∧
      ((sequencer.parse line).2.status ≠ .command → (sequencer.parse line).1 = sequencer) := by
  have hp := parse_parses sequencer line
  generalize sequencer.parse line = result at hp
  cases hp with
  | quit => exact ⟨nofun, fun _ => rfl⟩
  | invalid => exact ⟨nofun, fun _ => rfl⟩
  | command _ _ => exact ⟨fun _ => ⟨rfl, UInt32.toNat_add _ _⟩, fun h => absurd rfl h⟩

/-- `parse` accepts exactly the grammar. A line is read as a ping, as the command for safe mode, as the
end of the session or as a period of a value if and only if it is of that form, and it is a syntax error
if it is of none of them. A command carries the next sequence number and uses it up; the other results
leave it. -/
theorem parse_grammar (sequencer : CommandSequencer) (line : List Char) :
    ((sequencer.parse line).2.Is .ping ↔ WordLine "ping".toList line) ∧
    ((sequencer.parse line).2.Is .enterSafeMode ↔ WordLine "safe".toList line) ∧
    ((sequencer.parse line).2.status = .quit ↔ WordLine "quit".toList line) ∧
    (∀ value : Nat, (sequencer.parse line).2.Is .setTelemetryPeriod ∧
        (sequencer.parse line).2.command.periodMs.toNat = value ↔
      value < 2 ^ 32 ∧ PeriodLine value line) ∧
    ((sequencer.parse line).2.status = .invalidSyntax ↔ ¬ Accepted line) ∧
    ((sequencer.parse line).2.status = .command →
        (sequencer.parse line).2.command.sequence = sequencer.nextSequence ∧
          (sequencer.parse line).1.nextSequence.toNat =
            (sequencer.nextSequence.toNat + 1) % 2 ^ 32) ∧
    ((sequencer.parse line).2.status ≠ .command → (sequencer.parse line).1 = sequencer) :=
  ⟨parse_ping_iff sequencer line, parse_safe_iff sequencer line, parse_quit_iff sequencer line,
    parse_period_iff sequencer line, parse_invalid_iff sequencer line, parse_sequence sequencer line⟩

end ApogeeFC.Ground
