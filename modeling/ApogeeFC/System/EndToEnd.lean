import ApogeeFC.Flight.Schedule
import ApogeeFC.Ground.Grammar
import ApogeeFC.Ground.Sequencer

/-!
# Commands from end to end

The ground and the flight computer, connected by two links that keep every byte in order. What the
operator types goes through the sequencer and the command encoder, arrives at the flight loop in
chunks with telemetry cycles between them, and what the loop sends arrives at the ground in other
chunks.

`commands_are_answered` puts the layers together: the uplink is scanned as the commands that were sent
(`uplink_commands`), a run of steps on them sends one message for each step (`run_messages`), and these
are a stream of the downlink grammar.
-/

namespace ApogeeFC.System
open Codec Flight Ground Mealy Scan ApogeeFC.Stream

/-- The acknowledgements among some messages. -/
def acknowledgements (messages : List GroundMessage) : List CommandAckMessage :=
  messages.filterMap fun
    | .acknowledgement message => some message
    | .telemetry _ => none

/-- The period of the last command that may set one. -/
def lastPeriod (messages : List CommandMessage) : Option UInt32 :=
  ((messages.filter fun c => c.command = .setTelemetryPeriod ∧ InRange c.periodMs).getLast?).map
    CommandMessage.periodMs

/-- A run of steps sends one message for each of them: the acknowledgements of the commands, in order,
and telemetry. -/
lemma run_messages {computer computer' : FlightComputer} {steps frames} (h : Invariant computer)
    (hn : ∀ c ∈ commandsOf steps, c.command.Named)
    (hr : run (FlightComputer.step true) computer steps = some (computer', frames)) :
    ∃ messages, Concatenates messages (frames.flatMap EncodedFrame.view) ∧
      acknowledgements messages = (commandsOf steps).map acknowledgement ∧
      messages.length = (commandsOf steps).length + cycles steps := by
  induction steps generalizing computer frames with
  | nil =>
    cases hr
    exact ⟨[], ⟨by simp, rfl⟩, rfl, rfl⟩
  | cons step steps ih =>
    obtain ⟨computer₁, frames₁, frames₂, hs, hrest, e⟩ := run_cons_inv hr
    subst e
    cases step with
    | command message commandTime =>
      rw [commandsOf, List.forall_mem_cons] at hn
      obtain ⟨messages, hm, hacks, hlen⟩ := ih (step_invariant h hs) hn.2 hrest
      have hok : (encodeCommandAck (acknowledgement message)).ok :=
        (encodeCommandAck_acknowledgement message).mpr hn.1
      rw [FlightComputer.step, handleCommand_eq h, if_pos hn.1] at hs
      cases hs
      refine ⟨.acknowledgement (acknowledgement message) :: messages, ?_, ?_, ?_⟩
      · exact hm.cons (m := .acknowledgement _) hok
      · rw [commandsOf, List.map_cons, ← hacks]
        rfl
      · rw [commandsOf, cycles, List.length_cons, List.length_cons, hlen]
        omega
    | telemetry now readings =>
      obtain ⟨messages, hm, hacks, hlen⟩ := ih (step_invariant h hs) hn hrest
      obtain ⟨deadline, -, hc⟩ := telemetryCycle_eq h true now readings
      rw [FlightComputer.step, hc] at hs
      cases hs
      refine ⟨.telemetry (report computer now readings) :: messages, ?_, ?_, ?_⟩
      · exact hm.cons (m := .telemetry _)
          (encodeTelemetry_wire (valid_report h now readings)).1
      · exact hacks
      · rw [commandsOf, cycles, List.length_cons, hlen]
        omega

/-- The last period is that of the first command, unless a later command sets one. -/
lemma lastPeriod_cons (c : CommandMessage) (messages : List CommandMessage) :
    lastPeriod (c :: messages) = (lastPeriod messages).or
      (if c.command = .setTelemetryPeriod ∧ InRange c.periodMs then some c.periodMs else none) := by
  rw [lastPeriod, lastPeriod, List.filter_cons]
  split
  case isTrue hp =>
    rw [List.getLast?_cons]
    cases (messages.filter _).getLast? with
    | none => simp [of_decide_eq_true hp]
    | some last => rfl
  case isFalse hp =>
    rw [if_neg (fun h => hp (decide_eq_true h)), Option.or_none]

/-- The period after a run is the last one set. -/
lemma period_run {computer computer' : FlightComputer} {steps frames} (h : Invariant computer)
    (hr : run (FlightComputer.step true) computer steps = some (computer', frames)) :
    computer'.configuration.telemetryPeriodMs =
      (lastPeriod (commandsOf steps)).getD computer.configuration.telemetryPeriodMs := by
  induction steps generalizing computer frames with
  | nil =>
    cases hr
    rfl
  | cons step steps ih =>
    obtain ⟨computer₁, _, _, hs, hrest, -⟩ := run_cons_inv hr
    rw [ih (step_invariant h hs) hrest]
    cases step with
    | command message commandTime =>
      rw [FlightComputer.step, handleCommand_eq h] at hs
      cases hs
      rw [commandsOf, lastPeriod_cons, commandedConfiguration]
      cases lastPeriod (commandsOf steps) with
      | some periodMs => rfl
      | none =>
        split
        · rfl
        · rfl
    | telemetry now readings =>
      obtain ⟨deadline, -, hc⟩ := telemetryCycle_eq h true now readings
      rw [FlightComputer.step, hc] at hs
      cases hs
      rfl

/-- What is sent up is scanned as the commands. -/
lemma uplink_commands {messages : List CommandMessage}
    (hm : ∀ c ∈ messages, c.command.Named ∧ c.normal = c) :
    ∃ ts, Scans frameScanner (messages.flatMap fun c => (encodeCommand c).frame.view) ts [] ∧
      (frames ts).filterMap command? = messages := by
  induction messages with
  | nil => exact ⟨[], .wait frameScanner.verdict_nil, rfl⟩
  | cons c messages ih =>
    rw [List.forall_mem_cons] at hm
    obtain ⟨ts, hscan, hts⟩ := ih hm.2
    have hdec := (decodeCommand_encode hm.1.1).2
    have hcmd : command? (encodeCommand c).frame.view = some c := by
      rw [command?, hdec, hm.1.2]
      rfl
    refine ⟨.frame (encodeCommand c).frame.view :: ts, ?_, ?_⟩
    · exact .frame (accepts_of_decodeCommand (by rw [hdec]; rfl)) hscan
    · rw [frames_frame, List.filterMap_cons_some hcmd, hts]

/-- The `k`-th command, counted from zero, is answered under the number `k + 1`. -/
lemma acknowledgement_commands (lines : List (List Char)) :
    (commands {} lines).map acknowledgement = (commands {} lines).mapIdx (fun k c =>
      { sequence := .ofNat (k + 1)
        command := c.command
        status :=
          if c.command = .setTelemetryPeriod ∧ ¬ InRange c.periodMs then .invalidArgument
          else .accepted }) := by
  refine List.ext_getElem (by simp) fun k hk hk' => ?_
  have hk : k < (commands {} lines).length := by simpa using hk
  have hseq := sequence_commands {} lines k hk
  have hn := (normal_commands {} lines _ (List.getElem_mem hk)).1
  rw [List.getElem_map, List.getElem_mapIdx, acknowledgement, hseq, UInt32.ofNat_add, UInt32.add_comm]
  congr 1
  rw [answer]
  cases hc : (commands {} lines)[k].command with
  | ping => rfl
  | enterSafeMode => rfl
  | setTelemetryPeriod =>
    dsimp only
    split
    case isTrue hp => rw [if_neg (fun h => h.2 hp)]
    case isFalse hp => rw [if_pos ⟨rfl, hp⟩]
  | unnamed => exact absurd hc hn

/-- Every command is answered. Whatever the operator types, however the bytes are cut into chunks on
both links and wherever telemetry cycles fall between the chunks, the ground receives a clean stream:
one message for each command and each cycle. The acknowledgements in it are those of the commands, in
order, and the period in the end is the last one in range. -/
theorem commands_are_answered (lines : List (List Char)) (uptime : Int) (events : List LoopEvent)
    (h : receivedBytes events =
      (commands {} lines).flatMap fun c => (encodeCommand c).frame.view) :
    (∀ c ∈ commands {} lines, (encodeCommand c).ok) ∧
    ∃ loop sent messages,
      run FlightLoop.take { computer := .boot uptime } events = some (loop, sent) ∧
      loop.computer.configuration.telemetryPeriodMs = (lastPeriod (commands {} lines)).getD 1000 ∧
      Concatenates messages (sent.flatMap EncodedFrame.view) ∧
      acknowledgements messages = (commands {} lines).mapIdx (fun k c =>
        { sequence := .ofNat (k + 1)
          command := c.command
          status :=
            if c.command = .setTelemetryPeriod ∧ ¬ InRange c.periodMs then .invalidArgument
            else .accepted }) ∧
      ∀ chunks : List (List UInt8), chunks.flatten = sent.flatMap EncodedFrame.view →
        ∃ processor, GroundStreamProcessor.session {} chunks = some processor ∧
          processor.malformedInput = false ∧
          processor.decodedMessages = (commands {} lines).length + telemetryCycles events ∧
          processor.output = transcript messages := by
  have hnormal := normal_commands {} lines
  refine ⟨fun c hc => (encodeCommand_wire (hnormal c hc).1).1, ?_⟩
  have hready : Ready ({ computer := .boot uptime } : FlightLoop).streamDecoder [] := .empty rfl
  obtain ⟨loop, r', sent, hrun, hadv⟩ := run_advances hready (invariant_boot uptime) events
  obtain ⟨steps, ts, hsteps, hscan, hcmd, hcyc⟩ := hadv.refines
  -- the tokens of the uplink are the frames of the commands
  obtain ⟨us, hscan', hus⟩ := uplink_commands hnormal
  rw [List.nil_append, h] at hscan
  obtain ⟨e, -⟩ := hscan.det hscan'
  rw [e, hus] at hcmd
  obtain ⟨messages, hm, hacks, hlen⟩ := run_messages (invariant_boot uptime)
    (fun c hc => (hnormal c (hcmd ▸ hc)).1) hsteps
  have hperiod := period_run (invariant_boot uptime) hsteps
  rw [hcmd] at hacks hlen hperiod
  refine ⟨loop, sent, messages, hrun, hperiod, hm, hacks.trans (acknowledgement_commands lines), ?_⟩
  intro chunks hchunks
  obtain ⟨processor, hsession, -, hrec⟩ := session_grammar chunks
  have hr := hrec messages (hchunks ▸ hm)
  exact ⟨processor, hsession, hr.wellFormed, by rw [hr.decoded, hlen, hcyc], hr.output⟩

/-- A ping and a period that is too short, before a quit. The first five bytes arrive between two
telemetry cycles, the others after them. -/
theorem commands_are_answered_ping :
    ∃ loop sent messages,
      run FlightLoop.take { computer := .boot 0 }
        [.cycle 1000 ⟨7400, 2000, 300⟩,
          .drain (((encodeCommand ⟨1, .ping, 0⟩).frame.view.take 5).map (⟨·, fun _ => 1500⟩)),
          .cycle 2000 ⟨5000, 2000, 0⟩,
          .drain (((encodeCommand ⟨1, .ping, 0⟩).frame.view.drop 5 ++
            (encodeCommand ⟨2, .setTelemetryPeriod, 100⟩).frame.view).map (⟨·, fun _ => 2500⟩))] =
        some (loop, sent) ∧
      loop.computer.configuration.telemetryPeriodMs = 1000 ∧
      acknowledgements messages =
        [⟨1, .ping, .accepted⟩, ⟨2, .setTelemetryPeriod, .invalidArgument⟩] ∧
      ∃ processor, GroundStreamProcessor.session {} [sent.flatMap EncodedFrame.view] =
          some processor ∧
        processor.malformedInput = false ∧ processor.decodedMessages = 4 ∧
        processor.output = transcript messages := by
  have hcommands : commands {} ["ping".toList, "period 100".toList, "quit".toList] =
      [⟨1, .ping, 0⟩, ⟨2, .setTelemetryPeriod, 100⟩] := by decide +kernel
  obtain ⟨-, loop, sent, messages, hrun, hperiod, -, hacks, hground⟩ :=
    commands_are_answered ["ping".toList, "period 100".toList, "quit".toList] 0
      [.cycle 1000 ⟨7400, 2000, 300⟩,
        .drain (((encodeCommand ⟨1, .ping, 0⟩).frame.view.take 5).map (⟨·, fun _ => 1500⟩)),
        .cycle 2000 ⟨5000, 2000, 0⟩,
        .drain (((encodeCommand ⟨1, .ping, 0⟩).frame.view.drop 5 ++
          (encodeCommand ⟨2, .setTelemetryPeriod, 100⟩).frame.view).map (⟨·, fun _ => 2500⟩))]
      (by
        rw [hcommands]
        simp only [receivedBytes, List.map_map, Function.comp_def, List.map_id', List.append_nil,
          ← List.append_assoc, List.take_append_drop, List.flatMap_cons, List.flatMap_nil])
  rw [hcommands] at hperiod hacks hground
  obtain ⟨processor, hsession, hwf, hdecoded, hout⟩ :=
    hground [sent.flatMap EncodedFrame.view] (by simp)
  exact ⟨loop, sent, messages, hrun, hperiod, hacks, processor, hsession, hwf, hdecoded, hout⟩

end ApogeeFC.System
