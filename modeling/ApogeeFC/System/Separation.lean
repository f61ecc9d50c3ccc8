import ApogeeFC.Flight.Journal
import ApogeeFC.System.LinkSafety

/-!
# What commands and sensors have to do with each other

The two halves of the flight computer share the downlink, the mode and the schedule, and nothing else.
What is acknowledged depends on the received bytes alone, so no fault keeps a command from being
answered. What telemetry says about faults depends on the samples alone: it is what a fault manager says
that only ever sees those taken (`alone`). Which samples are taken is a matter of the schedule, and there
a command does have a say, as it may move the deadline (`downlink_separates`).
-/

namespace ApogeeFC.System
open Codec Flight Ground Mealy Scan ApogeeFC.Stream

/-- What a telemetry message says about faults. -/
structure FaultReport where
  sequence : UInt32
  readings : SensorReadings
  latchedFaultMask : UInt32
  deriving DecidableEq, Repr

def faultReport (message : TelemetryMessage) : FaultReport where
  sequence := message.snapshot.sequence
  readings := message.snapshot.sensorReadings
  latchedFaultMask := message.latchedFaultMask

/-- The reports of a fault manager that only sees the sensors. -/
def alone (manager : FaultManager) (sequence : UInt32) : List SensorReadings → List FaultReport
  | [] => []
  | readings :: more =>
    let (manager, _) := manager.update (HealthMonitor.evaluate readings)
    { sequence, readings, latchedFaultMask := manager.latchedFaultMask.toUInt32 } ::
      alone manager (sequence + 1) more

/-- The readings that some steps took. -/
abbrev readingsOf (steps : List FlightStep) : List SensorReadings := (samplesOf steps).map Prod.snd

/-- In the server, too, the fault manager is alone with the sensors. -/
lemma run_serve_alone {computer computer' : FlightComputer} {steps messages}
    (hi : Invariant computer) (hr : run serve computer steps = some (computer', messages)) :
    (telemetryMessages messages).map faultReport =
      alone computer.faultManager computer.telemetryCollector.nextSequence (readingsOf steps) := by
  induction steps generalizing computer messages with
  | nil =>
    cases hr
    rfl
  | cons step steps ih =>
    obtain ⟨computer₁, messages₁, messages₂, hs, hrest, e⟩ := run_cons_inv hr
    subst e
    have hrest := ih (serve_answers hi hs).1 hrest
    rw [telemetryMessages, List.filterMap_append, List.map_append]
    cases step with
    | command message commandTime =>
      obtain ⟨e, e'⟩ := Prod.mk.inj (Option.some.inj hs)
      subst e; subst e'
      -- a command leaves the manager and the numbering as they are
      rw [handleCommand_eq hi] at hrest
      exact hrest
    | telemetry now readings =>
      obtain ⟨⟨computer₂, frames⟩, hc, e⟩ := Option.bind_eq_some_iff.mp hs
      obtain ⟨deadline, -, hcycle⟩ := telemetryCycle_eq hi true now readings
      rw [hcycle] at hc
      cases hc
      cases e
      exact congrArg (faultReport (report computer now readings) :: ·) hrest

/-- Commands and sensors do not get in each other's way. Whatever the loop receives and reads, it sends
one acknowledgement for each command in what it received, the same whatever the sensors show; and one
telemetry message for each telemetry cycle that it took, which says of faults what a fault manager says
that is alone with the samples of these cycles. All that commands have to do with it is when the cycles
are taken. -/
theorem downlink_separates (uptime : Int) (iterations : List Iteration) :
    ∃ loop log messages,
      run (FlightLoop.journal true) { computer := .boot uptime } iterations = some (loop, log) ∧
      run (FlightLoop.iterate true) { computer := .boot uptime } iterations =
        some (loop, sentBy log) ∧
      Concatenates messages ((sentBy log).flatMap EncodedFrame.view) ∧
      (samplesIn log).Sublist (iterations.map fun i => (i.now, i.readings)) ∧
      acknowledgements messages = ((Scan.frames
        (frameScanner.scan (drained true iterations)).1).filterMap command?).map acknowledgement ∧
      (telemetryMessages messages).map faultReport =
        alone { faulted := true } 0 ((samplesIn log).map Prod.snd) := by
  have hready : Ready ({ computer := .boot uptime } : FlightLoop).streamDecoder [] := .empty rfl
  have hi := invariant_boot uptime
  obtain ⟨loop, log, hjournal, hj⟩ := run_journals hready hi true iterations
  obtain ⟨ts, r, hsteps, -, hscan, hcmd⟩ := hj.replays hready
  rw [List.nil_append] at hscan
  obtain ⟨messages, hserve, hm⟩ := serve_run hi (fun c hc => named_received (hcmd ▸ hc)) hsteps
  have hanswers : acknowledgements messages =
      ((stepsOf log).filterMap flightServer.request?).map acknowledgement :=
    Exchange.run_answers serve_answers hi hserve
  rw [filterMap_request, hcmd] at hanswers
  refine ⟨loop, log, messages, hjournal, by rw [run_iterate_journal, hjournal]; rfl, hm,
    run_journal_samples hjournal, by rw [hscan.scan_eq, hanswers], ?_⟩
  rw [← samplesOf_stepsOf]
  exact run_serve_alone hi hserve

end ApogeeFC.System
