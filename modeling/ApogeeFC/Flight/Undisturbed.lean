import ApogeeFC.Flight.Journal
import ApogeeFC.Flight.Schedule

/-!
# Undisturbed flight

What the uplink can do to the flight computer. Only an `EnterSafeMode` command and a period in range
change its state; noise, damaged frames, frames of other types, pings and refused periods do not, and
neither does a UART that is not ready. So a computer that receives nothing else flies, from any state it
has reached, exactly like one that receives nothing at all: the same modes, faults, numbers and
deadlines, and the same telemetry at the same times (`undisturbed_flight`).
-/

namespace ApogeeFC.Flight
open Codec Mealy Scan ApogeeFC.Stream

/-- The command does nothing but call for an answer. -/
def Inert (message : CommandMessage) : Prop :=
  message.command ≠ .enterSafeMode ∧
    ¬ (message.command = .setTelemetryPeriod ∧ InRange message.periodMs)

instance (message : CommandMessage) : Decidable (Inert message) := inferInstanceAs (Decidable (_ ∧ _))

/-- The frame is telemetry. -/
def Reporting (frame : EncodedFrame) : Bool := (decode frame.view).frame.messageType = .telemetry

/-- The same round, but nothing is received. -/
def Iteration.quiet (iteration : Iteration) : Iteration := { iteration with received := [] }

/-- An inert command leaves everything as it is, and its answer is not telemetry. -/
lemma handleCommand_inert {computer : FlightComputer} (hi : Invariant computer)
    {message : CommandMessage} (h : Inert message) (ready : Bool) (commandTime : Int) :
    ∃ frames, computer.handleCommand ready message commandTime = (computer, frames) ∧
      frames.filter Reporting = [] := by
  obtain ⟨hsafe, hperiod⟩ := h
  rw [handleCommand_eq hi, commandedMode, if_neg hsafe, commandedConfiguration, if_neg hperiod,
    commandedDeadline, if_neg hperiod]
  refine ⟨_, rfl, ?_⟩
  split
  case isFalse => rfl
  case isTrue hn =>
    obtain ⟨frame, hd, ht⟩ := @decode_encodeCommandAck (acknowledgement message) hn (named_answer _)
    have hack : Reporting (encodeCommandAck (acknowledgement message)).frame = false := by
      rw [Reporting, hd, ht]
      rfl
    cases ready with
    | false => rfl
    | true => simp [transmit, hack]

/-- Inert commands leave everything as it is. -/
lemma run_inert {computer computer' : FlightComputer} (hi : Invariant computer)
    {steps : List FlightStep} {frames} (hcycles : cycles steps = 0)
    (h : ∀ c ∈ commandsOf steps, Inert c)
    (hr : run (FlightComputer.step true) computer steps = some (computer', frames)) :
    computer' = computer ∧ frames.filter Reporting = [] := by
  induction steps generalizing frames with
  | nil =>
    cases hr
    exact ⟨rfl, rfl⟩
  | cons step steps ih =>
    obtain ⟨computer₁, frames₁, frames₂, hs, hrest, e⟩ := run_cons_inv hr
    subst e
    cases step with
    | command message commandTime =>
      rw [commandsOf, List.forall_mem_cons] at h
      obtain ⟨answers, hcommand, hfilter⟩ := handleCommand_inert hi h.1 true commandTime
      rw [FlightComputer.step, hcommand] at hs
      cases hs
      obtain ⟨e, hfilter'⟩ := ih hcycles h.2 hrest
      exact ⟨e, by rw [List.filter_append, hfilter, hfilter']; rfl⟩
    | telemetry now readings => cases hcycles

/-- Draining inert commands, noise and all, changes nothing but the decoder. -/
lemma drain_inert {ready : Bool} {loop : FlightLoop} {r r' : List UInt8} {ts}
    (h : Ready loop.streamDecoder r) (hi : Invariant loop.computer) {chunk : List Received}
    (hscan : Scans frameScanner (r ++ if ready then chunk.map Received.byte else []) ts r')
    (hinert : ∀ c ∈ (Scan.frames ts).filterMap command?, Inert c) :
    ∃ streamDecoder frames, loop.drain ready chunk = some ({ loop with streamDecoder }, frames) ∧
      Ready streamDecoder r' ∧ frames.filter Reporting = [] := by
  cases ready with
  | false =>
    rw [if_neg Bool.false_ne_true, List.append_nil] at hscan
    obtain ⟨-, e⟩ := hscan.det (.wait h.waits)
    subst e
    exact ⟨loop.streamDecoder, [], rfl, h, rfl⟩
  | true =>
    obtain ⟨⟨computer, streamDecoder⟩, r₁, frames, hdrain, hadv⟩ := drain_advances h chunk
    obtain ⟨steps, us, hsteps, hscan', hcmd, hcycles⟩ := hadv.refines
    obtain ⟨e1, e2⟩ := hscan'.det hscan
    subst e1; subst e2
    obtain ⟨e, hfilter⟩ := run_inert hi hcycles (hcmd ▸ hinert) hsteps
    have e : computer = loop.computer := e
    subst e
    exact ⟨streamDecoder, frames, hdrain, hadv.ready, hfilter⟩

/-- Whether the UART is ready only matters for what is sent. -/
lemma telemetryCycle_ready (ready : Bool) (computer : FlightComputer) (now : Int)
    (readings : SensorReadings) :
    computer.telemetryCycle ready now readings =
      (computer.telemetryCycle true now readings).map fun cycled =>
        (cycled.1, if ready then cycled.2 else []) := by
  cases ready with
  | true => simp
  | false =>
    unfold FlightComputer.telemetryCycle
    dsimp only [Option.bind_eq_bind]
    rw [Option.map_bind]
    congr 1
    funext deadline
    simp [transmit]

/-- A telemetry cycle, on both UARTs. -/
lemma telemetryCycle_reports {computer : FlightComputer} (hi : Invariant computer) (ready : Bool)
    (now : Int) (readings : SensorReadings) :
    ∃ computer' frame, Reporting frame = true ∧ Invariant computer' ∧
      computer.telemetryCycle true now readings = some (computer', [frame]) ∧
      computer.telemetryCycle ready now readings = some (computer', transmit ready frame) := by
  obtain ⟨deadline, -, hcycle⟩ := telemetryCycle_eq hi true now readings
  obtain ⟨frame, hd, ht⟩ := decode_encodeTelemetry (valid_report hi now readings)
  refine ⟨_, _, ?_, @step_invariant true computer _ (.telemetry now readings) _ hi hcycle, hcycle, ?_⟩
  · rw [Reporting, hd, ht]
    rfl
  · rw [telemetryCycle_ready, hcycle]
    rfl

/-- A round, from what it drains and what a cycle behind that does. -/
lemma iterate_of_drain {ready : Bool} {loop : FlightLoop} {iteration : Iteration}
    {computer computer' : FlightComputer} {streamDecoder frames more}
    (hdrain : loop.drain ready iteration.received = some ({ computer, streamDecoder }, frames))
    (hcycle : computer.telemetryCycle ready iteration.now iteration.readings =
      some (computer', more)) :
    loop.iterate ready iteration =
      some (if computer.nextTelemetryDeadline ≤ iteration.now then
        ({ computer := computer', streamDecoder }, frames ++ more)
      else ({ computer, streamDecoder }, frames)) := by
  rw [FlightLoop.iterate, hdrain]
  dsimp only [Option.bind_eq_bind, Option.bind_some]
  split
  · rw [FlightLoop.cycle, hcycle]
    rfl
  · rfl

/-- One round, and the same round with nothing received. -/
lemma iterate_undisturbed {ready : Bool} {loop quiet : FlightLoop} {r r' : List UInt8} {ts}
    (h : Ready loop.streamDecoder r) (hi : Invariant loop.computer)
    (hq : quiet.computer = loop.computer) {iteration : Iteration}
    (hscan : Scans frameScanner
      (r ++ if ready then iteration.received.map Received.byte else []) ts r')
    (hinert : ∀ c ∈ (Scan.frames ts).filterMap command?, Inert c) :
    ∃ loop' quiet' frames telemetry, loop.iterate ready iteration = some (loop', frames) ∧
      quiet.iterate true iteration.quiet = some (quiet', telemetry) ∧
      Ready loop'.streamDecoder r' ∧ Invariant loop'.computer ∧
      quiet'.computer = loop'.computer ∧
      frames.filter Reporting = if ready then telemetry else [] := by
  obtain ⟨streamDecoder, frames, hdrain, hready, hfilter⟩ := drain_inert h hi hscan hinert
  obtain ⟨computer, frame, hreport, hi', hcycle, hcycle'⟩ :=
    telemetryCycle_reports hi ready iteration.now iteration.readings
  have hnone : quiet.drain true iteration.quiet.received =
      some ({ computer := loop.computer, streamDecoder := quiet.streamDecoder }, []) := by
    rw [← hq]
    rfl
  have hround := iterate_of_drain hdrain hcycle'
  have hquiet := @iterate_of_drain true quiet iteration.quiet _ _ _ _ _ hnone hcycle
  change _ = some (if loop.computer.nextTelemetryDeadline ≤ iteration.now then _ else _) at hquiet
  by_cases hdue : loop.computer.nextTelemetryDeadline ≤ iteration.now
  case pos =>
    rw [if_pos hdue] at hround hquiet
    refine ⟨_, _, _, _, hround, hquiet, hready, hi', rfl, ?_⟩
    rw [List.filter_append, hfilter]
    cases ready with
    | false => rfl
    | true => simp [transmit, hreport]
  case neg =>
    rw [if_neg hdue] at hround hquiet
    refine ⟨_, _, _, _, hround, hquiet, hready, hi, rfl, ?_⟩
    rw [hfilter, ite_self]

/-- Rounds, and the same rounds with nothing received. -/
lemma run_undisturbed {ready : Bool} {loop quiet : FlightLoop} {r r' : List UInt8} {ts}
    (h : Ready loop.streamDecoder r) (hi : Invariant loop.computer)
    (hq : quiet.computer = loop.computer) {iterations : List Iteration}
    (hscan : Scans frameScanner (r ++ drained ready iterations) ts r')
    (hinert : ∀ c ∈ (Scan.frames ts).filterMap command?, Inert c) :
    ∃ loop' quiet' frames telemetry,
      run (FlightLoop.iterate ready) loop iterations = some (loop', frames) ∧
      run (FlightLoop.iterate true) quiet (iterations.map Iteration.quiet) =
        some (quiet', telemetry) ∧
      quiet'.computer = loop'.computer ∧
      frames.filter Reporting = if ready then telemetry else [] := by
  induction iterations generalizing loop quiet r ts r' with
  | nil => exact ⟨loop, quiet, [], [], rfl, rfl, hq, (ite_self _).symm⟩
  | cons iteration iterations ih =>
    -- the scan stops between the rounds and goes on
    obtain ⟨ts₁, r₁, hscan₁⟩ : ∃ ts₁ r₁, Scans frameScanner
        (r ++ if ready then iteration.received.map Received.byte else []) ts₁ r₁ :=
      ⟨_, _, scan_scans frameScanner _⟩
    obtain ⟨ts₂, r₂, hscan₂⟩ : ∃ ts₂ r₂, Scans frameScanner (r₁ ++ drained ready iterations) ts₂ r₂ :=
      ⟨_, _, scan_scans frameScanner _⟩
    have hboth := hscan₁.append hscan₂
    have hbytes : (if ready then iteration.received.map Received.byte else []) ++
        drained ready iterations = drained ready (iteration :: iterations) := by
      cases ready with
      | false => rfl
      | true => rfl
    rw [List.append_assoc, hbytes] at hboth
    obtain ⟨e, -⟩ := hscan.det hboth
    rw [e, frames_append, List.filterMap_append, List.forall_mem_append] at hinert
    obtain ⟨loop₁, quiet₁, frames₁, telemetry₁, hround, hquiet, hready₁, hi₁, hq₁, hf₁⟩ :=
      iterate_undisturbed h hi hq hscan₁ hinert.1
    obtain ⟨loop₂, quiet₂, frames₂, telemetry₂, hrounds, hquiets, hq₂, hf₂⟩ :=
      ih hready₁ hi₁ hq₁ hscan₂ hinert.2
    refine ⟨loop₂, quiet₂, _, _, run_cons hround hrounds, run_cons hquiet hquiets, hq₂, ?_⟩
    rw [List.filter_append, hf₁, hf₂]
    cases ready with
    | false => rfl
    | true => rfl

/-- Nothing but `EnterSafeMode` and a period in range disturbs the flight. From every state that the loop
reaches, on a ready UART or on one that is not: if no such command is among the frames that it receives
from there on, whatever else is, then it gets to the same state as if it received nothing, and on a ready
UART it sends the same telemetry. -/
theorem undisturbed_flight (ready : Bool) (uptime : Int) {earlier later : List Iteration}
    {loop : FlightLoop} {sent : List EncodedFrame}
    (h : run (FlightLoop.iterate ready) { computer := .boot uptime } earlier = some (loop, sent))
    (hinert : ∀ c ∈ (Scan.frames (frameScanner.scan
      (loop.streamDecoder.pending ++ drained ready later)).1).filterMap command?, Inert c) :
    ∃ loop' quiet frames telemetry,
      run (FlightLoop.iterate ready) loop later = some (loop', frames) ∧
      run (FlightLoop.iterate true) loop (later.map Iteration.quiet) = some (quiet, telemetry) ∧
      quiet.computer = loop'.computer ∧
      frames.filter Reporting = if ready then telemetry else [] := by
  have hready : Ready ({ computer := .boot uptime } : FlightLoop).streamDecoder [] := .empty rfl
  obtain ⟨loop', log, hjournal, hj⟩ := run_journals hready (invariant_boot uptime) ready earlier
  rw [run_iterate_journal, hjournal] at h
  obtain ⟨e, -⟩ := Prod.mk.inj (Option.some.inj h)
  have e : loop' = loop := e
  subst e
  obtain ⟨r, hr⟩ := hj.pending
  have hi := hj.records.invariant (invariant_boot uptime)
  rw [hr.pending] at hinert
  exact run_undisturbed hr hi rfl (scan_scans frameScanner _) hinert

/-- A round that receives a ping and a period that is too short, with noise before them. -/
def noisyRound : Iteration :=
  ⟨([0x17, 0xA5] ++ (encodeCommand ⟨1, .ping, 0⟩).frame.view ++ [0xA5] ++
    (encodeCommand ⟨2, .setTelemetryPeriod, 100⟩).frame.view).map (⟨·, fun _ => 1500⟩), 2000,
    ⟨6900, 2000, 300⟩⟩

/-- The telemetry after the noise is the telemetry without it. -/
theorem undisturbed_flight_noise :
    ∃ loop quiet frames telemetry,
      run (FlightLoop.iterate true) { computer := .boot 0 } [noisyRound] = some (loop, frames) ∧
      run (FlightLoop.iterate true) { computer := .boot 0 } [noisyRound.quiet] =
        some (quiet, telemetry) ∧
      quiet.computer = loop.computer ∧ frames.filter Reporting = telemetry := by
  have hpending : ({ computer := .boot 0 } : FlightLoop).streamDecoder.pending = [] :=
    (Ready.empty rfl).pending
  have hinert : ∀ c ∈ (Scan.frames (frameScanner.scan (drained true [noisyRound])).1).filterMap
      command?, Inert c := by
    decide +kernel
  exact @undisturbed_flight true 0 [] [noisyRound] _ _ rfl (by rw [hpending]; exact hinert)

end ApogeeFC.Flight
