import ApogeeFC.System.Link

/-!
# What holds on the link in every interleaving

Every run of the link is a run of the exchange (`link_refines`): however the two programs take turns and
however the bytes are cut up on both ways, what happens is commands being submitted, taken and answered
in order. So at any time the acknowledgements shown are those of the first commands typed, each once
(`link_answers`), and the telemetry shown is numbered without a gap (`link_telemetry`).
-/

namespace ApogeeFC.System
open Codec Flight Ground Mealy Exchange

/-- A step deals with the line that it returned, and with no other. -/
lemma Steps.commands {client client' : LiveClient} {reply actions} {lines : List (List Char)}
    (h : Ground.Steps client reply (client', actions))
    (hrest : ∀ status, client'.phase = .exited status → lines = []) :
    Ground.commands client.sequencer (typed [reply] ++ lines) =
      Ground.commands client.sequencer (typed [reply]) ++
        Ground.commands client'.sequencer lines := by
  cases h with
  | settles _ hsilent hset =>
    rw [typed_silent hsilent, hset.uplink.2.2]
    rfl
  | feeds _ _ _ hset =>
    rw [hset.uplink.2.2]
    rfl
  | quits _ _ =>
    rw [hrest 0 rfl, List.append_nil]
    exact (List.append_nil _).symm
  | @ignores line errors _ hparse =>
    show Ground.commands client.sequencer (line :: lines) =
      Ground.commands client.sequencer [line] ++ _
    rw [Ground.commands, Ground.commands, hparse]
    rfl
  | @begins line command periodMs phase _ _ hparse _ =>
    show Ground.commands client.sequencer (line :: lines) =
      Ground.commands client.sequencer [line] ++ _
    rw [Ground.commands, Ground.commands, hparse]
    rfl
  | sends _ _ _ _ => rfl
  | completes _ _ _ hset =>
    rw [hset.uplink.2.2]
    rfl
  | retries _ hsilent _ =>
    rw [typed_silent hsilent]
    rfl
  | fails _ hsilent =>
    rw [typed_silent hsilent]
    rfl

lemma typedLines_append (events more : List LinkEvent) :
    typedLines (events ++ more) = typedLines events ++ typedLines more := by
  rw [typedLines, List.filterMap_append]
  exact List.filterMap_append

lemma typedLines_ground (reply : LiveReply) (events : List LinkEvent) :
    typedLines (.ground reply :: events) = typed [reply] ++ typedLines events := by
  show typed ([reply] ++ _) = _
  exact List.filterMap_append

/-- After the client has returned, nothing is typed. -/
lemma typedLines_exited {strerror : Errno → String} {link link' : Link} {events}
    (h : ¬ Running link.client) (hr : events.foldlM (Link.step strerror) link = some link') :
    typedLines events = [] := by
  induction events generalizing link with
  | nil => rfl
  | cons event events ih =>
    obtain ⟨link₁, hs, hrest⟩ := Option.bind_eq_some_iff.mp hr
    cases event with
    | ground reply =>
      obtain ⟨_, -, hs⟩ := Option.bind_eq_some_iff.mp hs
      obtain ⟨_, hstep, -⟩ := Option.bind_eq_some_iff.mp hs
      exact absurd (running_of_step hstep) h
    | flight iteration =>
      obtain ⟨_, -, hs⟩ := Option.bind_eq_some_iff.mp hs
      obtain ⟨_, -, hs⟩ := Option.bind_eq_some_iff.mp hs
      cases hs
      refine ih ?_ hrest
      exact h

/-- The rounds of the flight loop. -/
def rounds (events : List LinkEvent) : List Iteration :=
  events.filterMap fun
    | .ground _ => none
    | .flight iteration => some iteration

/-- What the sensors and the clock would have shown in each round of the flight loop. -/
def samplings (events : List LinkEvent) : List (Int × SensorReadings) :=
  events.filterMap fun
    | .ground _ => none
    | .flight iteration => some (iteration.now, iteration.readings)

lemma samplings_rounds (events : List LinkEvent) :
    samplings events = (rounds events).map fun i => (i.now, i.readings) := by
  induction events with
  | nil => rfl
  | cons event events ih =>
    cases event with
    | ground reply => exact ih
    | flight iteration => exact congrArg ((iteration.now, iteration.readings) :: ·) ih

/-- Every run of the link is a run of the exchange. What the server does in it are the steps of the
journal of the flight loop. -/
lemma run_simulates {strerror : Errno → String} {link link' : Link} {exchange events}
    (h : Carries link exchange) (hr : events.foldlM (Link.step strerror) link = some link') :
    ∃ moves exchange' log, Moves flightServer exchange moves exchange' ∧ Carries link' exchange' ∧
      submitted moves = commands link.client.sequencer (typedLines events) ∧
      run (FlightLoop.journal true) link.loop (rounds events) = some (link'.loop, log) ∧
      served moves = stepsOf log ∧
      link'.client.processor.output =
        link.client.processor.output ++ transcript (delivered moves) := by
  induction events generalizing link exchange with
  | nil =>
    cases hr
    exact ⟨[], exchange, [], .refl, h, rfl, rfl, rfl, String.append_empty.symm⟩
  | cons event events ih =>
    obtain ⟨link₁, hs, hrest⟩ := Option.bind_eq_some_iff.mp hr
    cases event with
    | flight iteration =>
      obtain ⟨log₁, exchange₁, hjournal₁, hmoves₁, h₁, hclient⟩ := flight_simulates h hs
      obtain ⟨moves, exchange₂, log, hmoves, h₂, hsub, hjournal, hserved, hout⟩ := ih h₁ hrest
      rw [hclient] at hsub hout
      refine ⟨_, exchange₂, log₁ ++ log, hmoves₁.trans hmoves, h₂, ?_, run_cons hjournal₁ hjournal,
        ?_, ?_⟩
      · rw [submitted_append, submitted_serves]
        exact hsub
      · rw [served_append, served_serves, hserved]
        exact List.filterMap_append.symm
      · rw [delivered_append, delivered_serves]
        exact hout
    | ground reply =>
      obtain ⟨shown, exchange₁, hmoves₁, h₁, hout₁⟩ := ground_simulates h hs
      obtain ⟨moves, exchange₂, log, hmoves, h₂, hsub, hjournal, hserved, hout⟩ := ih h₁ hrest
      obtain ⟨_, -, hs⟩ := Option.bind_eq_some_iff.mp hs
      obtain ⟨⟨client, actions⟩, hstep, hs⟩ := Option.bind_eq_some_iff.mp hs
      cases hs
      refine ⟨_, exchange₂, log, hmoves₁.trans hmoves, h₂, ?_, hjournal, ?_, ?_⟩
      · have hlines := Steps.commands (step_steps h.sound hstep)
          fun status he => typedLines_exited (fun hrun => hrun status he) hrest
        rw [typedLines_ground, hlines]
        simp [hsub]
      · rw [served_append, served_append, served_submits, served_delivers]
        exact hserved
      · rw [hout, hout₁, String.append_assoc]
        simp

/-- The text that the client shows when it is connected. -/
abbrev banner : String := "Connected. Commands: ping, safe, period <milliseconds>, quit\n"

/-- The two programs implement the exchange. -/
theorem link_refines {strerror : Errno → String} {socketFd : Nat} {uptime : Int}
    {events : List LinkEvent} {link : Link}
    (h : events.foldlM (Link.step strerror) (.start socketFd uptime) = some link) :
    ∃ moves exchange, Moves flightServer { server := .boot uptime } moves exchange ∧
      Carries link exchange ∧ submitted moves = commands {} (typedLines events) ∧
      (samplesOf (served moves)).Sublist (samplings events) ∧
      link.client.processor.output = banner ++ transcript (delivered moves) := by
  obtain ⟨moves, exchange, log, hmoves, hcarries, hsub, hjournal, hserved, hout⟩ :=
    run_simulates (carries_start socketFd uptime) h
  refine ⟨moves, exchange, hmoves, hcarries, hsub, ?_, hout⟩
  rw [hserved, samplesOf_stepsOf, samplings_rounds]
  exact run_journal_samples hjournal

/-- The client polls, and receives the chunk. -/
def receives (chunk : List UInt8) : List LinkEvent :=
  [.ground (.poll (.ok ({ pollIn := true }, {}))), .ground (.recv (.ok chunk))]

/-- A ping and its answer, and then the first telemetry message. -/
def pingEvents : List LinkEvent :=
  [.ground (.poll (.ok ({}, { pollIn := true }))), .ground (.getline (some "ping".toList)),
    .ground (.send (.ok 13)),
    .flight ⟨(encodeCommand ⟨1, .ping, 0⟩).frame.view.map (⟨·, fun _ => 500⟩), 500,
      ⟨7400, 2200, 320⟩⟩,
    .flight ⟨[], 1000, ⟨7400, 2200, 320⟩⟩] ++
  receives ((encodeCommandAck ⟨1, .ping, .accepted⟩).frame.view ++
    (encodeTelemetry ⟨⟨0, 1000, .safe, ⟨7400, 2200, 320⟩⟩, 0⟩).frame.view)

/-- They are a run of the link, after which nothing is under way. -/
lemma run_pingEvents : ∃ link,
    pingEvents.foldlM (Link.step fun _ => "") (.start 3 0) = some link ∧
      link.client.phase = .polling ∧ link.uplink = [] ∧ link.downlink = [] := by
  have h : (pingEvents.foldlM (Link.step fun _ => "") (.start 3 0)).map
      (fun link => (link.client.phase, link.uplink, link.downlink)) = some (.polling, [], []) := by
    decide +kernel
  obtain ⟨link, hlink, e⟩ := Option.map_eq_some_iff.mp h
  obtain ⟨hp, e⟩ := Prod.mk.inj e
  obtain ⟨hup, hdown⟩ := Prod.mk.inj e
  exact ⟨link, hlink, hp, hup, hdown⟩

lemma running_polling {client : LiveClient} (h : client.phase = .polling) : Running client := by
  intro status he
  rw [h] at he
  cases he

theorem link_refines_ping :
    ∃ link moves exchange, pingEvents.foldlM (Link.step fun _ => "") (.start 3 0) = some link ∧
      Moves flightServer { server := .boot 0 } moves exchange ∧ Carries link exchange ∧
      submitted moves = commands {} (typedLines pingEvents) ∧
      link.client.processor.output = banner ++ transcript (delivered moves) := by
  obtain ⟨link, hlink, -⟩ := run_pingEvents
  obtain ⟨moves, exchange, hmoves, hcarries, hsub, -, hout⟩ := link_refines hlink
  exact ⟨link, moves, exchange, hlink, hmoves, hcarries, hsub, hout⟩

/-! ## Answers -/

/-- The server moves as the flight computer does. -/
lemma serve_step {computer computer' : FlightComputer} {step messages}
    (hs : serve computer step = some (computer', messages)) :
    ∃ frames, computer.step true step = some (computer', frames) := by
  cases step with
  | command message commandTime =>
    cases hs
    exact ⟨_, rfl⟩
  | telemetry now readings =>
    obtain ⟨⟨computer₁, frames⟩, hc, e⟩ := Option.bind_eq_some_iff.mp hs
    cases e
    exact ⟨frames, hc⟩

lemma run_serve_step {computer computer' : FlightComputer} {steps messages}
    (h : run serve computer steps = some (computer', messages)) :
    ∃ frames, run (FlightComputer.step true) computer steps = some (computer', frames) := by
  obtain ⟨frames, hrun, -⟩ := run_beside (Q := fun _ => True)
    (fun hs => (serve_step hs).imp fun _ hstep => ⟨hstep, fun _ _ => trivial⟩) h
  exact ⟨frames, hrun⟩

/-- What a run of the exchange has answered. -/
lemma moves_answer {uptime : Int} {moves exchange}
    (h : Moves flightServer { server := .boot uptime } moves exchange) :
    ∃ answered, submitted moves = answered ++ exchange.requests ∧
      acknowledgements (delivered moves ++ exchange.replies) = answered.map acknowledgement ∧
      exchange.server.configuration.telemetryPeriodMs = (lastPeriod answered).getD 1000 := by
  obtain ⟨hrequests, messages, hrun, -⟩ := h.conserves
  obtain ⟨frames, hsteps⟩ := run_serve_step hrun
  have hperiod := period_run (invariant_boot uptime) hsteps
  rw [← filterMap_request] at hperiod
  have hanswers := h.answers (fun hi hs => serve_answers hi hs) (invariant_boot uptime)
  exact ⟨_, hrequests, hanswers, hperiod⟩

/-- The commands are what is under way to the flight computer: what it has buffered, what is on the
uplink and what the client has left to send. A client that has returned 1 sends no more of them. -/
def UnderWayUp (link : Link) (waiting : List CommandMessage) : Prop :=
  ∃ r rest, Stream.Ready link.loop.streamDecoder r ∧
    r ++ link.uplink ++ rest = waiting.flatMap commandBytes ∧
    (rest = link.client.phase.unsent ∨ link.client.phase = .exited 1)

/-- The messages are what is under way to the client: what it has buffered and what is on the
downlink. -/
def UnderWayDown (link : Link) (flying : List GroundMessage) : Prop :=
  ∃ r, Concatenates flying (r ++ link.downlink) ∧
    (Running link.client → Stream.Ready link.client.processor.decoder r)

lemma Carries.underWayDown {link : Link} {exchange} (h : Carries link exchange) :
    UnderWayDown link exchange.replies := by
  obtain ⟨r, hdown, hground⟩ := h.down
  exact ⟨r, hdown, fun hr => (hground hr).1⟩

/-- Commands are answered in order, each once, and nothing is answered that was not asked. Whatever the
two programs have done so far, the commands typed are those answered and those under way. The
acknowledgements shown and under way are those of the commands answered, the period is the last one that
these have set, and a client that has not returned has received nothing that is malformed. -/
theorem link_answers {strerror : Errno → String} {socketFd : Nat} {uptime : Int}
    {events : List LinkEvent} {link : Link}
    (h : events.foldlM (Link.step strerror) (.start socketFd uptime) = some link) :
    ∃ answered waiting shown flying,
      commands {} (typedLines events) = answered ++ waiting ∧
      acknowledgements (shown ++ flying) = answered.map acknowledgement ∧
      link.client.processor.output = banner ++ transcript shown ∧
      UnderWayUp link waiting ∧ UnderWayDown link flying ∧
      link.loop.computer.configuration.telemetryPeriodMs = (lastPeriod answered).getD 1000 ∧
      (Running link.client → link.client.processor.malformedInput = false) := by
  obtain ⟨moves, exchange, log, hmoves, hcarries, hsub, -, -, hout⟩ :=
    run_simulates (carries_start socketFd uptime) h
  obtain ⟨answered, hrequests, hacks, hperiod⟩ := moves_answer hmoves
  obtain ⟨r, hdown, hground⟩ := hcarries.down
  rw [hcarries.server] at hperiod
  exact ⟨answered, exchange.requests, delivered moves, exchange.replies, hsub.symm.trans hrequests,
    hacks, hout, hcarries.up, hcarries.underWayDown, hperiod, fun hr => (hground hr).2⟩

theorem link_answers_ping :
    ∃ link answered waiting shown flying,
      pingEvents.foldlM (Link.step fun _ => "") (.start 3 0) = some link ∧
      commands {} ["ping".toList] = answered ++ waiting ∧
      acknowledgements (shown ++ flying) = answered.map acknowledgement ∧
      link.client.processor.output = banner ++ transcript shown ∧
      UnderWayUp link waiting ∧ UnderWayDown link flying ∧
      link.client.processor.malformedInput = false := by
  obtain ⟨link, hlink, hp, -⟩ := run_pingEvents
  obtain ⟨answered, waiting, shown, flying, hcs, hacks, hout, hup, hdown, -, hclean⟩ :=
    link_answers hlink
  exact ⟨link, answered, waiting, shown, flying, hlink, hcs, hacks, hout, hup, hdown,
    hclean (running_polling hp)⟩

/-! ## Telemetry -/

/-- The telemetry among some messages. -/
def telemetryMessages (messages : List GroundMessage) : List TelemetryMessage :=
  messages.filterMap fun
    | .telemetry message => some message
    | .acknowledgement _ => none

/-- The message is the `k`-th one, and it is about this sample: it shows all faults of the readings, and
`Nominal` only if there are none and none are latched. -/
structure Reports (k : Nat) (sample : Int × SensorReadings) (message : TelemetryMessage) : Prop where
  sequence : message.snapshot.sequence = .ofNat k
  uptime : message.snapshot.uptimeMs = .ofInt sample.1
  readings : message.snapshot.sensorReadings = sample.2
  faults : message.latchedFaultMask &&& (HealthMonitor.evaluate sample.2).faultMask.toUInt32 =
    (HealthMonitor.evaluate sample.2).faultMask.toUInt32
  mode : message.snapshot.flightMode = .safe ∨ message.snapshot.flightMode = .nominal
  nominal : message.snapshot.flightMode = .nominal →
    message.latchedFaultMask = 0 ∧ sample.2.WithinLimits

/-- The `k`-th telemetry message is what the `k`-th telemetry cycle reports. -/
lemma run_serve_split {computer computer' : FlightComputer} {steps messages}
    (hr : run serve computer steps = some (computer', messages)) {k : Nat} {message}
    (hk : (telemetryMessages messages)[k]? = some message) :
    ∃ before now readings after computer₁ frames,
      steps = before ++ .telemetry now readings :: after ∧ cycles before = k ∧
      run (FlightComputer.step true) computer before = some (computer₁, frames) ∧
      message = report computer₁ now readings := by
  induction steps generalizing computer messages k with
  | nil =>
    cases hr
    cases hk
  | cons step steps ih =>
    obtain ⟨computer₁, messages₁, messages₂, hs, hrest, e⟩ := run_cons_inv hr
    obtain ⟨frames₁, hstep⟩ := serve_step hs
    subst e
    cases step with
    | command message commandTime =>
      obtain ⟨-, e⟩ := Prod.mk.inj (Option.some.inj hs)
      subst e
      obtain ⟨before, now, readings, after, computer₂, frames₂, e, hcyc, hrun, hm⟩ := ih hrest hk
      exact ⟨.command message commandTime :: before, now, readings, after, computer₂, _,
        congrArg (_ :: ·) e, hcyc, run_cons hstep hrun, hm⟩
    | telemetry now readings =>
      obtain ⟨_, -, e⟩ := Option.bind_eq_some_iff.mp hs
      cases e
      cases k with
      | zero =>
        exact ⟨[], now, readings, steps, computer, [], rfl, rfl, rfl, (Option.some.inj hk).symm⟩
      | succ k =>
        obtain ⟨before, now', readings', after, computer₂, frames₂, e, hcyc, hrun, hm⟩ :=
          ih hrest hk
        exact ⟨.telemetry now readings :: before, now', readings', after, computer₂, _,
          congrArg (_ :: ·) e, congrArg Nat.succ hcyc, run_cons hstep hrun, hm⟩

lemma length_samplesOf (steps : List FlightStep) : (samplesOf steps).length = cycles steps := by
  induction steps with
  | nil => rfl
  | cons step steps ih =>
    cases step with
    | command message commandTime => exact ih
    | telemetry now readings => exact congrArg Nat.succ ih

/-- There is one telemetry message for each cycle. -/
lemma length_telemetryMessages {computer computer' : FlightComputer} {steps messages}
    (h : run serve computer steps = some (computer', messages)) :
    (telemetryMessages messages).length = cycles steps := by
  induction steps generalizing computer messages with
  | nil =>
    cases h
    rfl
  | cons step steps ih =>
    obtain ⟨computer₁, messages₁, messages₂, hs, hrest, e⟩ := run_cons_inv h
    subst e
    cases step with
    | command message commandTime =>
      obtain ⟨-, e⟩ := Prod.mk.inj (Option.some.inj hs)
      subst e
      have hlength := ih hrest
      exact hlength
    | telemetry now readings =>
      obtain ⟨_, -, e⟩ := Option.bind_eq_some_iff.mp hs
      cases e
      exact congrArg Nat.succ (ih hrest)

/-- The server reports every sample that it takes. -/
lemma run_serve_reports {uptime : Int} {computer : FlightComputer} {steps messages}
    (hr : run serve (.boot uptime) steps = some (computer, messages)) {k : Nat} {message}
    (hk : (telemetryMessages messages)[k]? = some message) :
    ∃ sample, (samplesOf steps)[k]? = some sample ∧ Reports k sample message := by
  obtain ⟨before, now, readings, after, computer₁, frames, e, hcyc, hrun, hm⟩ := run_serve_split hr hk
  have hi := run_inv step_invariant (invariant_boot uptime) hrun
  obtain ⟨hfaults, hmode, hnominal⟩ := report_faults hi now readings
  subst e; subst hcyc; subst hm
  refine ⟨(now, readings), ?_, ?_, rfl, rfl, hfaults, hmode, hnominal⟩
  · rw [samplesOf_append, ← length_samplesOf, List.getElem?_append_right (Nat.le_refl _), Nat.sub_self]
    rfl
  · rw [sequence_report, nextSequence_run (invariant_boot uptime) hrun]
    exact UInt32.zero_add _

/-- Telemetry arrives as it was taken. Whatever the two programs have done so far, the telemetry messages
shown and under way are as many as the samples that the flight loop has taken in the rounds so far. The
`k`-th one is numbered `k`, and it is about the `k`-th sample: with its time and its readings, with all
their faults, and `Nominal` only without any. -/
theorem link_telemetry {strerror : Errno → String} {socketFd : Nat} {uptime : Int}
    {events : List LinkEvent} {link : Link}
    (h : events.foldlM (Link.step strerror) (.start socketFd uptime) = some link) :
    ∃ shown flying log,
      run (FlightLoop.journal true) { computer := .boot uptime } (rounds events) =
        some (link.loop, log) ∧
      link.client.processor.output = banner ++ transcript shown ∧ UnderWayDown link flying ∧
      (samplesIn log).Sublist (samplings events) ∧
      (telemetryMessages (shown ++ flying)).length = (samplesIn log).length ∧
      ∀ k message, (telemetryMessages (shown ++ flying))[k]? = some message →
        ∃ sample, (samplesIn log)[k]? = some sample ∧ Reports k sample message := by
  obtain ⟨moves, exchange, log, hmoves, hcarries, -, hjournal, hserved, hout⟩ :=
    run_simulates (carries_start socketFd uptime) h
  obtain ⟨-, messages, hrun, hreplies⟩ := hmoves.conserves
  have hreplies : messages = delivered moves ++ exchange.replies := hreplies
  rw [hserved] at hrun
  rw [hreplies] at hrun
  refine ⟨delivered moves, exchange.replies, log, hjournal, hout, hcarries.underWayDown, ?_, ?_, ?_⟩
  · rw [samplings_rounds]
    exact run_journal_samples hjournal
  · rw [length_telemetryMessages hrun, ← length_samplesOf, samplesOf_stepsOf]
  · intro k message hk
    rw [← samplesOf_stepsOf]
    exact run_serve_reports hrun hk

theorem link_telemetry_ping :
    ∃ link shown flying log,
      pingEvents.foldlM (Link.step fun _ => "") (.start 3 0) = some link ∧
      link.client.processor.output = banner ++ transcript shown ∧ UnderWayDown link flying ∧
      (samplesIn log).Sublist [(500, ⟨7400, 2200, 320⟩), (1000, ⟨7400, 2200, 320⟩)] ∧
      (telemetryMessages (shown ++ flying)).length = (samplesIn log).length ∧
      ∀ k message, (telemetryMessages (shown ++ flying))[k]? = some message →
        ∃ sample, (samplesIn log)[k]? = some sample ∧ Reports k sample message := by
  obtain ⟨link, hlink, -⟩ := run_pingEvents
  obtain ⟨shown, flying, log, -, h⟩ := link_telemetry hlink
  exact ⟨link, shown, flying, log, hlink, h⟩

end ApogeeFC.System
