import ApogeeFC.Codec.CommandWire
import Mathlib.Data.List.DropRight

/-!
# The command sequencer

Model of `CommandSequencer` in `ground_client.hpp` and of what `run_live` does with the lines an
operator types. A `std::string_view` is the list of its characters.

`parse_parses` says once what a line can do: nothing, or make the command with the next sequence
number. So the commands of a session are numbered from one (`sequence_commands`), and each of them
survives the wire unchanged (`normal_commands`).
-/

namespace ApogeeFC.Ground
open Codec

inductive LocalCommandStatus where
  | command
  | quit
  | invalidSyntax
  deriving DecidableEq, Repr

structure LocalCommandResult where
  status : LocalCommandStatus := .invalidSyntax
  command : CommandMessage := {}
  deriving DecidableEq, Repr

def whitespace : List Char := [' ', '\t', '\r', '\n']

def trim (text : List Char) : List Char :=
  (text.dropWhile fun c => c ∈ whitespace).rdropWhile fun c => c ∈ whitespace

/-- `std::from_chars` for a `std::uint32_t`: the value of the leading digits and what is after them.
It fails if there are no digits or the value is out of range. -/
def fromChars (text : List Char) : Option (UInt32 × List Char) :=
  let digits := text.takeWhile Char.isDigit
  let value := digits.foldl (fun value c => 10 * value + (c.toNat - '0'.toNat)) 0
  if digits = [] ∨ UInt32.size ≤ value then none
  else some (.ofNat value, text.dropWhile Char.isDigit)

structure CommandSequencer where
  nextSequence : UInt32 := 1
  deriving DecidableEq, Repr

namespace CommandSequencer

def makeCommand (sequencer : CommandSequencer) (command : CommandId) (periodMs : UInt32) :
    CommandSequencer × LocalCommandResult :=
  let message : CommandMessage := { sequence := sequencer.nextSequence, command, periodMs }
  ({ nextSequence := sequencer.nextSequence + 1 }, { status := .command, command := message })

def parse (sequencer : CommandSequencer) (input : List Char) :
    CommandSequencer × LocalCommandResult :=
  let commandText := trim input
  if commandText = "quit".toList then (sequencer, { status := .quit })
  else if commandText = "ping".toList then sequencer.makeCommand .ping 0
  else if commandText = "safe".toList then sequencer.makeCommand .enterSafeMode 0
  else
    let periodPrefix := "period".toList
    if ¬ periodPrefix <+: commandText ∨ commandText.length = periodPrefix.length ∨
        commandText[periodPrefix.length]? ≠ some ' ' ∧
          commandText[periodPrefix.length]? ≠ some '\t' then
      (sequencer, {})
    else
      let valueText := trim (commandText.drop periodPrefix.length)
      if valueText = [] then (sequencer, {})
      else
        match fromChars valueText with
        | some (periodMs, []) => sequencer.makeCommand .setTelemetryPeriod periodMs
        | _ => (sequencer, {})

end CommandSequencer

/-- The commands that `parse` returns for the lines before the first `quit`. -/
def commands (sequencer : CommandSequencer) : List (List Char) → List CommandMessage
  | [] => []
  | line :: lines =>
    let (sequencer, parsed) := sequencer.parse line
    match parsed.status with
    | .quit => []
    | .invalidSyntax => commands sequencer lines
    | .command => parsed.command :: commands sequencer lines

/-- What `run_live` sends for the lines on its standard input. -/
def runLive (sequencer : CommandSequencer) : List (List Char) → List EncodedFrame
  | [] => []
  | line :: lines =>
    let (sequencer, parsed) := sequencer.parse line
    match parsed.status with
    | .quit => []
    | .invalidSyntax => runLive sequencer lines
    | .command =>
      let encoded := encodeCommand parsed.command
      if ¬ encoded.ok then runLive sequencer lines
      else encoded.frame :: runLive sequencer lines

/-- What a line can do. -/
inductive Parses (sequencer : CommandSequencer) : CommandSequencer × LocalCommandResult → Prop
  | quit : Parses sequencer (sequencer, { status := .quit })
  | invalid : Parses sequencer (sequencer, {})
  | command {command : CommandId} {periodMs : UInt32} : command.Named →
    (command ≠ .setTelemetryPeriod → periodMs = 0) →
    Parses sequencer (sequencer.makeCommand command periodMs)

lemma parse_parses (sequencer : CommandSequencer) (input : List Char) :
    Parses sequencer (sequencer.parse input) := by
  unfold CommandSequencer.parse
  dsimp only
  split
  · exact .quit
  split
  · exact .command (by decide) (fun _ => rfl)
  split
  · exact .command (by decide) (fun _ => rfl)
  split
  · exact .invalid
  split
  · exact .invalid
  split
  · exact .command (by decide) (fun h => absurd rfl h)
  · exact .invalid

/-- Commands are numbered one after the other. -/
lemma sequence_commands (sequencer : CommandSequencer) (lines : List (List Char)) (k : Nat)
    (hk : k < (commands sequencer lines).length) :
    (commands sequencer lines)[k].sequence = sequencer.nextSequence + .ofNat k := by
  induction lines generalizing sequencer k with
  | nil => cases hk
  | cons line lines ih =>
    have hp := parse_parses sequencer line
    revert hk
    rw [commands]
    generalize sequencer.parse line = result at hp
    cases hp with
    | quit => exact fun hk => absurd hk (Nat.not_lt_zero _)
    | invalid => exact ih _ _
    | command hn hz =>
      intro hk
      cases k with
      | zero => simp [CommandSequencer.makeCommand]
      | succ k =>
        have hs := ih _ k (Nat.lt_of_succ_lt_succ hk)
        refine hs.trans ?_
        change sequencer.nextSequence + 1 + .ofNat k = _
        rw [UInt32.ofNat_add, UInt32.add_assoc, UInt32.add_comm 1]
        rfl

example : commands {} ["ping".toList, "period500".toList, " period\t250\r".toList, "quit".toList,
    "safe".toList] = [⟨1, .ping, 0⟩, ⟨2, .setTelemetryPeriod, 250⟩] := by decide +kernel

/-- A command that the sequencer makes has an enumerator and no period that the wire would lose. -/
lemma normal_commands (sequencer : CommandSequencer) (lines : List (List Char)) :
    ∀ c ∈ commands sequencer lines, c.command.Named ∧ c.normal = c := by
  induction lines generalizing sequencer with
  | nil => simp [commands]
  | cons line lines ih =>
    have hp := parse_parses sequencer line
    rw [commands]
    generalize sequencer.parse line = result at hp
    cases hp with
    | quit => simp
    | invalid => exact ih _
    | @command command periodMs hn hz =>
      intro c hc
      obtain e | hc := List.mem_cons.mp hc
      · subst e
        refine ⟨hn, ?_⟩
        by_cases hs : command = .setTelemetryPeriod
        · simp [CommandMessage.normal, hs]
        · simp [CommandMessage.normal, hs, hz hs]
      · exact ih _ c hc

/-- Every command is sent. -/
lemma runLive_eq (sequencer : CommandSequencer) (lines : List (List Char)) :
    runLive sequencer lines = (commands sequencer lines).map fun c => (encodeCommand c).frame := by
  induction lines generalizing sequencer with
  | nil => rfl
  | cons line lines ih =>
    have hp := parse_parses sequencer line
    rw [runLive, commands]
    generalize sequencer.parse line = result at hp
    cases hp with
    | quit => rfl
    | invalid => exact ih _
    | @command command periodMs hn hz =>
      have hok : (encodeCommand ⟨sequencer.nextSequence, command, periodMs⟩).ok :=
        (encodeCommand_wire hn).1
      simp [CommandSequencer.makeCommand, hok, ih]

end ApogeeFC.Ground
