import ApogeeFC.Flight.Journal
import ApogeeFC.Flight.Schedule

/-!
# The journal as a run

What a journal says can be done again: its entries stand for steps of the flight computer (`stepsOf`),
and these lead from the same state to the same state and transmit the same frames (`Records.replays`).
The commands among them are those in the received bytes (`Journals.replays`), the samples those of the
telemetry cycles that were taken (`samplesIn`). A round takes at most one sample, its own
(`run_journal_samples`).
-/

namespace ApogeeFC.Flight
open Codec Mealy Scan ApogeeFC.Stream

/-- The step that an entry stands for. A call that carries no command stands for none. -/
def Entry.step? : Entry → Option FlightStep
  | .handled call uptime _ =>
    if call.event.status = .frameDecoded then
      (command? call.event.frame.view).map fun message => .command message uptime
    else none
  | .cycled now readings _ => some (.telemetry now readings)

/-- The steps that a journal stands for. -/
def stepsOf (log : List Entry) : List FlightStep := log.filterMap Entry.step?

/-- What the sensors showed in a telemetry cycle, and when. -/
def Entry.sample? : Entry → Option (Int × SensorReadings)
  | .handled _ _ _ => none
  | .cycled now readings _ => some (now, readings)

/-- The samples that were taken over a journal. -/
def samplesIn (log : List Entry) : List (Int × SensorReadings) := log.filterMap Entry.sample?

lemma samplesIn_append (log more : List Entry) :
    samplesIn (log ++ more) = samplesIn log ++ samplesIn more := List.filterMap_append

section Records
variable {ready : Bool} {computer computer' : FlightComputer} {log : List Entry}

/-- A call of the handler is the step that it stands for. -/
lemma handled_replays {call : HandlerCall} {uptime frames more}
    (hs : computer.handleStreamEvent ready call.event uptime = (computer', frames))
    {computer'' : FlightComputer} {frames' : List EncodedFrame}
    (hr : run (FlightComputer.step ready) computer' more = some (computer'', frames')) :
    run (FlightComputer.step ready) computer
      ((Entry.handled call uptime frames).step?.toList ++ more) =
        some (computer'', frames ++ frames') := by
  rw [FlightComputer.handleStreamEvent] at hs
  rw [Entry.step?, command?]
  by_cases hf : call.event.status = .frameDecoded
  case neg =>
    rw [if_pos hf] at hs
    rw [if_neg hf]
    cases hs
    exact hr
  rw [if_neg (not_not.mpr hf)] at hs
  rw [if_pos hf]
  dsimp only at hs
  by_cases hok : (decodeCommand call.event.frame.view).ok
  case neg =>
    rw [if_pos hok] at hs
    rw [if_neg hok]
    cases hs
    exact hr
  case pos =>
    rw [if_neg (not_not.mpr hok)] at hs
    rw [if_pos hok]
    exact run_cons (congrArg some hs) hr

/-- The steps of a journal lead where it led, and transmit what it transmitted. -/
lemma Records.replays (h : Records ready computer log computer') :
    run (FlightComputer.step ready) computer (stepsOf log) = some (computer', sentBy log) := by
  induction h with
  | nil _ => rfl
  | @handled computer computer₁ _ call uptime frames log hs _ ih =>
    have hrun := handled_replays hs ih
    rw [stepsOf, List.filterMap_cons]
    cases hstep : (Entry.handled call uptime frames).step? with
    | none =>
      rw [hstep] at hrun
      exact hrun
    | some step =>
      rw [hstep] at hrun
      exact hrun
  | cycled _ hs _ ih => exact run_cons hs ih

end Records

/-- The commands among the steps are those in the frames that the handler was given. -/
lemma commandsOf_stepsOf (log : List Entry) :
    commandsOf (stepsOf log) = (decodedFrames (callsOf log)).filterMap command? := by
  induction log with
  | nil => rfl
  | cons entry log ih =>
    cases entry with
    | cycled now readings frames => exact ih
    | handled call uptime frames =>
      have hcalls : callsOf (.handled call uptime frames :: log) = call :: callsOf log := rfl
      rw [stepsOf, List.filterMap_cons, Entry.step?, hcalls]
      by_cases hf : call.event.status = .frameDecoded
      case neg =>
        rw [if_neg hf, decodedFrames_skip hf]
        exact ih
      rw [if_pos hf, decodedFrames_cons hf, List.filterMap_cons]
      cases command? call.event.frame.view with
      | none => exact ih
      | some message => exact congrArg (message :: ·) ih

/-- The steps of a journal take the commands that the reference scan finds in the received bytes. -/
lemma Journals.replays {ready : Bool} {loop loop' : FlightLoop} {r bytes : List UInt8} {log}
    (h : Ready loop.streamDecoder r) (hj : Journals ready loop bytes loop' log) :
    ∃ ts r', run (FlightComputer.step ready) loop.computer (stepsOf log) =
        some (loop'.computer, sentBy log) ∧ Ready loop'.streamDecoder r' ∧
      Scans frameScanner (r ++ bytes) ts r' ∧
      commandsOf (stepsOf log) = (Scan.frames ts).filterMap command? := by
  obtain ⟨d', calls, ts, r', hpush, hready, hscan, hdec, -⟩ := FrameStreamDecoder.push_scans h bytes
  rw [hj.decodes] at hpush
  cases hpush
  exact ⟨ts, r', hj.records.replays, hready, hscan, by rw [commandsOf_stepsOf, hdec]⟩

/-! ## Samples -/

/-- The handler takes no samples. -/
lemma samplesIn_journalCalls (ready : Bool) (uptime : Nat → Int) (k : Nat) (computer : FlightComputer)
    (calls : List HandlerCall) : samplesIn (computer.journalCalls ready uptime k calls).2 = [] := by
  induction calls generalizing k computer with
  | nil => rfl
  | cons call calls ih => exact ih _ _

lemma samplesIn_journalDrain {ready : Bool} {loop loop' : FlightLoop} {chunk log}
    (h : loop.journalDrain ready chunk = some (loop', log)) : samplesIn log = [] := by
  rw [FlightLoop.journalDrain] at h
  split at h
  case isTrue =>
    cases h
    rfl
  case isFalse =>
    induction chunk generalizing loop log with
    | nil =>
      cases h
      rfl
    | cons received chunk ih =>
      obtain ⟨loop₁, log₁, log₂, hs, hrest, e⟩ := run_cons_inv h
      obtain ⟨⟨streamDecoder, calls⟩, -, hs⟩ := Option.bind_eq_some_iff.mp hs
      cases hs
      rw [e, samplesIn_append, samplesIn_journalCalls, ih hrest]
      rfl

/-- A round takes its sample or none. -/
lemma journal_samples {ready : Bool} {loop loop' : FlightLoop} {iteration log}
    (h : loop.journal ready iteration = some (loop', log)) :
    (samplesIn log).Sublist [(iteration.now, iteration.readings)] := by
  obtain ⟨⟨loop₁, log₁⟩, hdrain, h⟩ := Option.bind_eq_some_iff.mp h
  have hnone := samplesIn_journalDrain hdrain
  dsimp only at h
  split at h
  case isTrue =>
    obtain ⟨⟨loop₂, frames⟩, -, h⟩ := Option.bind_eq_some_iff.mp h
    cases h
    rw [samplesIn_append, hnone]
    exact List.Sublist.refl _
  case isFalse =>
    cases h
    rw [hnone]
    exact List.nil_sublist _

lemma run_journal_samples {ready : Bool} {loop loop' : FlightLoop} {iterations log}
    (h : run (FlightLoop.journal ready) loop iterations = some (loop', log)) :
    (samplesIn log).Sublist (iterations.map fun i => (i.now, i.readings)) := by
  induction iterations generalizing loop log with
  | nil =>
    cases h
    exact .slnil
  | cons iteration iterations ih =>
    obtain ⟨loop₁, log₁, log₂, hs, hrest, e⟩ := run_cons_inv h
    rw [e, samplesIn_append]
    exact (journal_samples hs).append (ih hrest)

end ApogeeFC.Flight
