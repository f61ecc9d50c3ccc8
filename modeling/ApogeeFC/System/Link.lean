import ApogeeFC.Flight.Replay
import ApogeeFC.Ground.LiveSession
import ApogeeFC.Lib.Exchange
import ApogeeFC.System.EndToEnd

/-!
# The two programs together

The live client and the flight loop, with the bytes that are on the way between them. Either program can
move at any time: the client when a system call returns, the flight loop by a round of its `while` loop.
What a program receives is the front of what is under way to it, however little that is.

On the level of messages this is a server behind two queues (`flightServer`). `Carries` says which
messages the bytes under way are. They include what a decoder has buffered and what the client has yet
to send. Every event is some moves of the exchange (`ground_simulates`, `flight_simulates`).
-/

namespace ApogeeFC.System
open Codec Flight Ground Mealy Scan Exchange ApogeeFC.Stream

/-- The programs, and the bytes on the way up and on the way down. -/
structure Link where
  client : LiveClient
  loop : FlightLoop
  uplink : List UInt8 := []
  downlink : List UInt8 := []

/-- A system call of the client returns, or the flight loop goes round. -/
inductive LinkEvent where
  | ground (reply : LiveReply)
  | flight (iteration : Iteration)

/-- One event. It is none of the link's if the program could not make it or if the bytes that it received
are not those under way. -/
def Link.step (strerror : Errno → String) (link : Link) : LinkEvent → Option Link
  | .ground reply => do
    let downlink ← link.downlink.dropPrefix? (receivedChunks [reply]).flatten
    let (client, actions) ← link.client.step strerror reply
    some { link with client, downlink, uplink := link.uplink ++ sentBytes actions }
  | .flight iteration => do
    let uplink ← link.uplink.dropPrefix? (iteration.received.map Received.byte)
    let (loop, frames) ← link.loop.iterate true iteration
    some { link with loop, uplink, downlink := link.downlink ++ frames.flatMap EncodedFrame.view }

/-- The client is connected, and the flight computer has just been switched on. -/
def Link.start (socketFd : Nat) (uptime : Int) : Link where
  client := { socketFd }
  loop := { computer := .boot uptime }

/-- The lines that were typed. -/
def typedLines (events : List LinkEvent) : List (List Char) :=
  typed (events.filterMap fun
    | .ground reply => some reply
    | .flight _ => none)

/-! ## The flight computer as a server -/

/-- A step of the flight computer, with the message that it sends. -/
def serve (computer : FlightComputer) : FlightStep → Option (FlightComputer × List GroundMessage)
  | .command message commandTime =>
    some ((computer.handleCommand true message commandTime).1,
      [.acknowledgement (computer.process message).2])
  | .telemetry now readings => do
    let (computer', _) ← computer.telemetryCycle true now readings
    some (computer', [.telemetry (report computer now readings)])

/-- The flight computer takes commands, and cycles on its own. -/
def flightServer : Server FlightComputer FlightStep CommandMessage GroundMessage where
  step := serve
  request?
    | .command message _ => some message
    | .telemetry _ _ => none

lemma filterMap_request (steps : List FlightStep) :
    steps.filterMap flightServer.request? = commandsOf steps := by
  induction steps with
  | nil => rfl
  | cons step steps ih =>
    cases step with
    | command message commandTime => exact congrArg (message :: ·) ih
    | telemetry now readings => exact ih

/-- The server keeps the invariant, and answers the commands that it takes. -/
lemma serve_answers {computer computer' : FlightComputer} {step messages} (h : Invariant computer)
    (hs : serve computer step = some (computer', messages)) :
    Invariant computer' ∧
      acknowledgements messages = (flightServer.request? step).toList.map acknowledgement := by
  cases step with
  | command message commandTime =>
    cases hs
    refine ⟨h.handleCommand true message commandTime, ?_⟩
    rw [process_eq h]
    rfl
  | telemetry now readings =>
    obtain ⟨⟨computer₁, frames⟩, hc, e⟩ := Option.bind_eq_some_iff.mp hs
    cases e
    exact ⟨@step_invariant true computer _ (.telemetry now readings) frames h hc, rfl⟩

/-- Commands that were received have names. -/
lemma named_received {fs : List (List UInt8)} {c : CommandMessage} (h : c ∈ fs.filterMap command?) :
    c.command.Named := by
  obtain ⟨f, -, hf⟩ := List.mem_filterMap.mp h
  rw [command?] at hf
  split at hf
  case isTrue hok =>
    cases hf
    exact (encodeCommand_decode hok).1
  case isFalse => cases hf

/-- What the flight computer sends are the messages of the server. -/
lemma serve_run {computer computer' : FlightComputer} {steps frames} (h : Invariant computer)
    (hn : ∀ c ∈ commandsOf steps, c.command.Named)
    (hr : run (FlightComputer.step true) computer steps = some (computer', frames)) :
    ∃ messages, run serve computer steps = some (computer', messages) ∧
      Concatenates messages (frames.flatMap EncodedFrame.view) := by
  induction steps generalizing computer frames with
  | nil =>
    cases hr
    exact ⟨[], rfl, by simp, rfl⟩
  | cons step steps ih =>
    obtain ⟨computer₁, frames₁, frames₂, hs, hrest, e⟩ := run_cons_inv hr
    subst e
    have hi := step_invariant h hs
    cases step with
    | command message commandTime =>
      rw [commandsOf, List.forall_mem_cons] at hn
      obtain ⟨messages, hrun, hm⟩ := ih hi hn.2 hrest
      have hok : (encodeCommandAck (acknowledgement message)).ok :=
        (encodeCommandAck_acknowledgement message).mpr hn.1
      have e : computer.handleCommand true message commandTime = (computer₁, frames₁) :=
        Option.some.inj hs
      have hserve : serve computer (.command message commandTime) =
          some (computer₁, [.acknowledgement (acknowledgement message)]) := by
        rw [serve, e, process_eq h]
      rw [handleCommand_eq h, if_pos hn.1] at e
      cases e
      exact ⟨_, run_cons hserve hrun, hm.cons (m := .acknowledgement _) hok⟩
    | telemetry now readings =>
      obtain ⟨messages, hrun, hm⟩ := ih hi hn hrest
      obtain ⟨deadline, -, hc⟩ := telemetryCycle_eq h true now readings
      have e : computer.telemetryCycle true now readings = some (computer₁, frames₁) := hs
      have hserve : serve computer (.telemetry now readings) =
          some (computer₁, [.telemetry (report computer now readings)]) := by
        rw [serve, e]
        rfl
      rw [hc] at e
      cases e
      exact ⟨_, run_cons hserve hrun,
        hm.cons (m := .telemetry _) (encodeTelemetry_wire (valid_report h now readings)).1⟩

/-! ## Bytes and messages -/

/-- The bytes of a command. -/
def commandBytes (message : CommandMessage) : List UInt8 := (encodeCommand message).frame.view

/-- A command that the operator can give. -/
def Normal (message : CommandMessage) : Prop := message.command.Named ∧ message.normal = message

lemma command?_commandBytes {message : CommandMessage} (h : Normal message) :
    command? (commandBytes message) = some message := by
  rw [command?, commandBytes, (decodeCommand_encode h.1).2, h.2]
  rfl

/-- Commands are read back from their frames. -/
lemma filterMap_commandBytes {messages : List CommandMessage} (h : ∀ c ∈ messages, Normal c) :
    (messages.map commandBytes).filterMap command? = messages := by
  rw [List.filterMap_map]
  refine (List.filterMap_congr fun c hc => ?_).trans List.filterMap_some
  exact command?_commandBytes (h c hc)

lemma accepts_commandBytes {message : CommandMessage} (h : Normal message) :
    frameScanner.Accepts (commandBytes message) := by
  refine accepts_of_decodeCommand ?_
  rw [commandBytes, (decodeCommand_encode h.1).2]
  rfl

/-- The samples that some steps took of the sensors, and when. -/
def samplesOf (steps : List FlightStep) : List (Int × SensorReadings) :=
  steps.filterMap fun
    | .command _ _ => none
    | .telemetry now readings => some (now, readings)

lemma samplesOf_append (steps more : List FlightStep) :
    samplesOf (steps ++ more) = samplesOf steps ++ samplesOf more := List.filterMap_append

/-- The samples of the steps are those of the journal. -/
lemma samplesOf_stepsOf (log : List Entry) : samplesOf (stepsOf log) = samplesIn log := by
  induction log with
  | nil => rfl
  | cons entry log ih =>
    cases entry with
    | cycled now readings frames => exact congrArg ((now, readings) :: ·) ih
    | handled call uptime frames =>
      rw [stepsOf, List.filterMap_cons]
      cases hstep : (Entry.handled call uptime frames).step? with
      | none => exact ih
      | some step =>
        -- a call of the handler is no sample
        rw [Entry.step?, Option.ite_none_right_eq_some] at hstep
        obtain ⟨message, -, e⟩ := Option.map_eq_some_iff.mp hstep.2
        subst e
        exact ih

/-- A round of the loop is the run of steps that its journal stands for. -/
lemma iterate_steps {loop loop' : FlightLoop} {r : List UInt8} {iteration frames}
    (h : Ready loop.streamDecoder r) (hi : Invariant loop.computer)
    (hit : loop.iterate true iteration = some (loop', frames)) :
    ∃ log ts r', loop.journal true iteration = some (loop', log) ∧
      run (FlightComputer.step true) loop.computer (stepsOf log) =
        some (loop'.computer, frames) ∧ Ready loop'.streamDecoder r' ∧
      Scans frameScanner (r ++ iteration.received.map Received.byte) ts r' ∧
      commandsOf (stepsOf log) = (Scan.frames ts).filterMap command? := by
  obtain ⟨loop₁, log, hjournal, hj⟩ := journal_journals h hi true iteration
  rw [iterate_journal, hjournal] at hit
  cases hit
  obtain ⟨ts, r', hsteps, hready, hscan, hcmd⟩ := hj.replays h
  exact ⟨log, ts, r', hjournal, hsteps, hready, hscan, hcmd⟩

/-- A round of the loop that receives a part of what is sent up takes the commands in it. -/
lemma iterate_commands {loop loop' : FlightLoop} {r rest : List UInt8} {iteration frames}
    {messages : List CommandMessage} (h : Ready loop.streamDecoder r) (hi : Invariant loop.computer)
    (hm : ∀ c ∈ messages, Normal c)
    (e : r ++ iteration.received.map Received.byte ++ rest = messages.flatMap commandBytes)
    (hit : loop.iterate true iteration = some (loop', frames)) :
    ∃ log waiting r', loop.journal true iteration = some (loop', log) ∧
      run (FlightComputer.step true) loop.computer (stepsOf log) =
        some (loop'.computer, frames) ∧
      messages = commandsOf (stepsOf log) ++ waiting ∧
      Ready loop'.streamDecoder r' ∧ r' ++ rest = waiting.flatMap commandBytes := by
  obtain ⟨log, ts, r', hjournal, hsteps, hready, hscan, hcmd⟩ := iterate_steps h hi hit
  obtain ⟨taken, waiting, e1, e2, e3⟩ := hscan.of_flatMap (fun c hc => accepts_commandBytes (hm c hc)) e
  subst e1
  refine ⟨log, waiting, r', hjournal, hsteps, ?_, hready, e3⟩
  rw [hcmd, e2, frames_map_frame, filterMap_commandBytes fun c hc => hm c (by simp [hc])]

/-- Calls for the frames of messages show the messages. -/
lemma shownBy_messages {messages : List GroundMessage} {calls : List HandlerCall}
    (hm : ∀ m ∈ messages, m.Encodes) (hq : Quiet (calls.map HandlerCall.report))
    (hf : decodedFrames calls = messages.map GroundMessage.bytes) :
    shownBy calls = { output := transcript messages, decodedMessages := messages.length } := by
  have hfresh : Ground.Received {} [] := ⟨rfl, rfl, rfl, rfl⟩
  have hr := hfresh.handleCalls hm hq hf
  rw [List.nil_append] at hr
  rw [shownBy, GroundStreamProcessor.shown, hr.output, hr.errors, hr.decoded, hr.wellFormed]

/-- A processor that is fed a part of what is sent down shows the messages in it. -/
lemma feed_messages {processor processor' : GroundStreamProcessor} {r bytes rest : List UInt8}
    {messages : List GroundMessage} (h : Ready processor.decoder r)
    (hc : Concatenates messages (r ++ bytes ++ rest)) (hfeed : processor.feed bytes = some processor') :
    ∃ shown waiting r', messages = shown ++ waiting ∧ Ready processor'.decoder r' ∧
      Concatenates waiting (r' ++ rest) ∧
      processor'.output = processor.output ++ transcript shown ∧
      processor'.malformedInput = processor.malformedInput := by
  obtain ⟨d', calls, ts, r', hpush, hready, hscan, hdec, hquiet⟩ :=
    FrameStreamDecoder.push_scans h bytes
  rw [feed_eq, hpush, Option.map_some] at hfeed
  cases hfeed
  obtain ⟨shown, waiting, e1, e2, e3⟩ := hscan.of_flatMap (fun m hm => (hc.1 m hm).accepts) hc.2
  subst e1
  rw [e2] at hdec hquiet
  rw [frames_map_frame] at hdec
  rw [shownBy_messages (fun m hm => hc.1 m (by simp [hm])) (hquiet.mpr (clean_map_frame _)) hdec]
  refine ⟨shown, waiting, r', rfl, hready, ⟨fun m hm => hc.1 m (by simp [hm]), e3⟩, rfl, ?_⟩
  exact Bool.or_false _

lemma concatenates_append {messages more : List GroundMessage} {bytes bytes' : List UInt8}
    (h : Concatenates messages bytes) (h' : Concatenates more bytes') :
    Concatenates (messages ++ more) (bytes ++ bytes') := by
  refine ⟨?_, by rw [h.2, h'.2, List.flatMap_append]⟩
  intro m hm
  exact (List.mem_append.mp hm).elim (h.1 m) (h'.1 m)

/-! ## The simulation -/

lemma eq_append_of_dropPrefix? {bytes chunk rest : List UInt8}
    (h : bytes.dropPrefix? chunk = some rest) : bytes = chunk ++ rest := by
  obtain ⟨chunk', hchunk, e⟩ := List.dropPrefix?_eq_some_iff.mp h
  rw [beq_iff_eq] at e
  subst e
  exact hchunk

/-- The client has not returned. -/
def Running (client : LiveClient) : Prop := ∀ status, client.phase ≠ .exited status

lemma running_of_step {strerror : Errno → String} {client : LiveClient} {reply result}
    (h : client.step strerror reply = some result) : Running client := by
  intro status hp
  unfold LiveClient.step at h
  rw [hp] at h
  cases reply <;> cases h

/-- What is under way on the link are the requests and the replies of the exchange. -/
structure Carries (link : Link) (exchange : State FlightComputer CommandMessage GroundMessage) :
    Prop where
  server : exchange.server = link.loop.computer
  invariant : Invariant link.loop.computer
  sound : link.client.phase.Sound
  normal : ∀ c ∈ exchange.requests, Normal c
  up : ∃ r rest, Ready link.loop.streamDecoder r ∧
    r ++ link.uplink ++ rest = exchange.requests.flatMap commandBytes ∧
    (rest = link.client.phase.unsent ∨ link.client.phase = .exited 1)
  down : ∃ r, Concatenates exchange.replies (r ++ link.downlink) ∧
    (Running link.client → Ready link.client.processor.decoder r ∧
      link.client.processor.malformedInput = false)

lemma carries_start (socketFd : Nat) (uptime : Int) :
    Carries (.start socketFd uptime) { server := .boot uptime } where
  server := rfl
  invariant := invariant_boot uptime
  sound := sound_polling
  normal := by simp
  up := ⟨[], [], .empty rfl, rfl, .inl rfl⟩
  down := ⟨[], ⟨by simp, rfl⟩, fun _ => ⟨.empty rfl, rfl⟩⟩

/-- A round of the flight loop is a run of the server, over the steps of its journal. -/
lemma flight_simulates {strerror : Errno → String} {link link' : Link} {exchange iteration}
    (h : Carries link exchange) (hs : link.step strerror (.flight iteration) = some link') :
    ∃ log exchange', link.loop.journal true iteration = some (link'.loop, log) ∧
      Moves flightServer exchange ((stepsOf log).map .serve) exchange' ∧
      Carries link' exchange' ∧ link'.client = link.client := by
  obtain ⟨uplink, hdrop, hs⟩ := Option.bind_eq_some_iff.mp hs
  obtain ⟨⟨loop, frames⟩, hit, hs⟩ := Option.bind_eq_some_iff.mp hs
  cases hs
  obtain ⟨server, requests, replies⟩ := exchange
  obtain ⟨hserver, hi, hsound, hnormal, ⟨r, rest, hready, hup, hrest⟩, ⟨r₁, hdown, hground⟩⟩ := h
  dsimp only at hserver hnormal hup hdown
  have hchunk := eq_append_of_dropPrefix? hdrop
  rw [hchunk, ← List.append_assoc, List.append_assoc _ uplink] at hup
  obtain ⟨log, waiting, r', hjournal, hsteps, e, hready', hup'⟩ :=
    iterate_commands hready hi hnormal hup hit
  subst hserver; subst e
  have hnamed : ∀ c ∈ commandsOf (stepsOf log), c.command.Named :=
    fun c hc => (hnormal c (by simp [hc])).1
  obtain ⟨messages, hrun, hm⟩ := serve_run hi hnamed hsteps
  refine ⟨log, ⟨loop.computer, waiting, replies ++ messages⟩, hjournal, ?_, ?_, rfl⟩
  · rw [← filterMap_request]
    exact .serves hrun waiting replies
  · constructor
    · rfl
    · exact run_inv step_invariant hi hsteps
    · exact hsound
    · exact fun c hc => hnormal c (List.mem_append_right _ hc)
    · exact ⟨r', rest, hready', by rwa [List.append_assoc], hrest⟩
    · refine ⟨r₁, ?_, hground⟩
      rw [← List.append_assoc]
      exact concatenates_append hdown hm

/-- A system call of the client submits the command of the line that it returned, and delivers the
messages that the bytes it returned complete. -/
lemma ground_simulates {strerror : Errno → String} {link link' : Link} {exchange reply}
    (h : Carries link exchange) (hs : link.step strerror (.ground reply) = some link') :
    ∃ shown : List GroundMessage, ∃ exchange', Moves flightServer exchange
        ((commands link.client.sequencer (typed [reply])).map .submit ++ shown.map .deliver)
        exchange' ∧
      Carries link' exchange' ∧
      link'.client.processor.output = link.client.processor.output ++ transcript shown := by
  obtain ⟨downlink, hdrop, hs⟩ := Option.bind_eq_some_iff.mp hs
  obtain ⟨⟨client, actions⟩, hstep, hs⟩ := Option.bind_eq_some_iff.mp hs
  cases hs
  obtain ⟨server, requests, replies⟩ := exchange
  obtain ⟨hserver, hi, hsound, hnormal, ⟨r, rest, hready, hup, hrest⟩, ⟨r₁, hdown, hground⟩⟩ := h
  dsimp only at hserver hnormal hup hdown
  have hchunk := eq_append_of_dropPrefix? hdrop
  have hrunning := running_of_step hstep
  have hsteps := step_steps hsound hstep
  obtain ⟨hready₁, hclean⟩ := hground hrunning
  -- what is received
  have hsame : Follows "" link.client.processor link.client.processor := ⟨rfl, by simp, rfl, rfl⟩
  obtain ⟨processor, hfeed, hm⟩ := hsteps.mirrors hsame
  rw [hchunk, ← List.append_assoc] at hdown
  obtain ⟨shown, waiting, r', e, hready', hdown', hout, hmal⟩ := feed_messages hready₁ hdown hfeed
  subst e
  -- what is submitted
  generalize hcs : commands link.client.sequencer (typed [reply]) = submitted
  have hsubmitted : ∀ c ∈ submitted, Normal c := hcs ▸ normal_commands _ _
  have hsend : toSend link.client.sequencer [reply] = submitted.flatMap commandBytes := by
    rw [toSend, runLive_eq, hcs, List.flatMap_map]
    rfl
  refine ⟨shown, ⟨server, requests ++ submitted, waiting⟩,
    (Moves.submits submitted requests _).trans (.delivers _ shown waiting), ?_, ?_⟩
  · constructor
    · exact hserver
    · exact hi
    · exact hsteps.sound hsound
    · intro c hc
      exact (List.mem_append.mp hc).elim (hnormal c) (hsubmitted c)
    · rw [List.flatMap_append, ← hup, ← hsend]
      obtain hsent | ⟨hnone, hgone⟩ := hsteps.uplink fun _ _ => rfl
      · obtain e | hexited := hrest
        · refine ⟨r, client.phase.unsent, hready, ?_, .inl rfl⟩
          have hnil : toSend client.sequencer [] = [] := rfl
          rw [hnil, List.append_nil] at hsent
          rw [e, List.append_assoc _ _ (toSend _ _), ← hsent]
          simp only [List.append_assoc]
        · exact absurd hexited (hrunning 1)
      · refine ⟨r, rest ++ toSend link.client.sequencer [reply], hready, ?_, .inr hgone⟩
        rw [hnone, List.append_nil, ← List.append_assoc]
    · refine ⟨r', hdown', fun hr => ?_⟩
      rcases hm with hf | ⟨_, _, _, hexited⟩
      · refine ⟨by rw [hf.decoder]; exact hready', ?_⟩
        rw [hf.malformedInput, hmal]
        exact hclean
      · exact absurd hexited (hr 0)
  · show client.processor.output = _
    rw [← hout]
    rcases hm with hf | ⟨_, hfinish, hf, _⟩
    · rw [hf.output, String.empty_append]
    · rw [hf.output, String.empty_append, (finish_shows hfinish).1]

end ApogeeFC.System
