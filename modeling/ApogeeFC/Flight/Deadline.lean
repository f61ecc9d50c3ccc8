import ApogeeFC.Flight.Journal

/-!
# The telemetry deadline

Sensors are read, faults detected and the mode dropped to `Safe` only in the telemetry cycle, so the
deadline bounds how long a fault goes unseen. It is moved in two places: the cycle moves it past `now`
in steps of the period, and an accepted `SetTelemetryPeriod` sets it to the time of the command plus
the new period. `deadline_on_time` counts from the last of these; counted from the last cycle alone the
bound fails (`period_command_postpones`).
-/

namespace ApogeeFC.Flight
open Codec Mealy ApogeeFC.Stream

/-- The stream event carries a command that sets the period. -/
def SetsPeriod (streamEvent : FrameStreamEvent) : Prop :=
  streamEvent.status = .frameDecoded ∧ (decodeCommand streamEvent.frame.view).ok ∧
    (decodeCommand streamEvent.frame.view).message.command = .setTelemetryPeriod ∧
    answer (decodeCommand streamEvent.frame.view).message = .accepted

instance (streamEvent : FrameStreamEvent) : Decidable (SetsPeriod streamEvent) :=
  inferInstanceAs (Decidable (_ ∧ _ ∧ _ ∧ _))

/-- The time of a telemetry cycle. -/
def Entry.cycled? : Entry → Option Int
  | .handled _ _ _ => none
  | .cycled now _ _ => some now

/-- The time of a telemetry cycle, or of a command that set the period. -/
def Entry.armed? : Entry → Option Int
  | .handled call uptime _ => if SetsPeriod call.event then some uptime else none
  | .cycled now _ _ => some now

/-- The time of the last telemetry cycle; that of booting if there was none. -/
def lastCycled (uptime : Int) (log : List Entry) : Int :=
  log.foldl (fun time entry => entry.cycled?.getD time) uptime

/-- The time of the last telemetry cycle or command that set the period; that of booting if there was
none. -/
def lastArmed (uptime : Int) (log : List Entry) : Int :=
  log.foldl (fun time entry => entry.armed?.getD time) uptime

/-- The next deadline is at most one period after `armed`. -/
def OnTime (armed : Int) (computer : FlightComputer) : Prop :=
  computer.nextTelemetryDeadline ≤ armed + computer.configuration.telemetryPeriodMs.toNat

lemma onTime_boot (uptime : Int) : OnTime uptime (.boot uptime) := le_refl _

/-- The loop stops at the first deadline past `now`. -/
lemma catchUp_le {period now : Int} {rounds : Nat} {deadline deadline' : Int} (hd : deadline ≤ now)
    (h : FlightComputer.catchUp period now rounds deadline = some deadline') :
    deadline' ≤ now + period := by
  induction rounds generalizing deadline with
  | zero => cases h
  | succ rounds ih =>
    rw [FlightComputer.catchUp] at h
    split at h
    case isTrue hle => exact ih hle h
    case isFalse =>
      cases h
      omega

/-- A telemetry cycle moves the deadline and keeps the configuration. -/
lemma telemetryCycle_deadline {ready : Bool} {computer computer' : FlightComputer} {now readings frames}
    (h : computer.telemetryCycle ready now readings = some (computer', frames)) :
    FlightComputer.catchUp computer.configuration.telemetryPeriodMs.toNat now
        ((now - computer.nextTelemetryDeadline).toNat + 1) computer.nextTelemetryDeadline =
      some computer'.nextTelemetryDeadline ∧
    computer'.configuration = computer.configuration := by
  rw [FlightComputer.telemetryCycle] at h
  obtain ⟨deadline, hc, h⟩ := Option.bind_eq_some_iff.mp h
  cases h
  exact ⟨hc, rfl⟩

/-- A telemetry cycle that is due arms the deadline at its time. -/
lemma OnTime.cycled {ready : Bool} {computer computer' : FlightComputer} {now readings frames}
    (hd : computer.nextTelemetryDeadline ≤ now)
    (h : computer.telemetryCycle ready now readings = some (computer', frames)) :
    OnTime now computer' := by
  obtain ⟨hc, hconf⟩ := telemetryCycle_deadline h
  rw [OnTime, hconf]
  exact catchUp_le hd hc

/-- A stream event that sets the period moves the deadline to one period after its time. Any other leaves
the deadline and the period as they are. -/
lemma handled_deadline {computer computer' : FlightComputer} (hi : Invariant computer)
    {ready streamEvent uptime frames}
    (hs : computer.handleStreamEvent ready streamEvent uptime = (computer', frames)) :
    computer'.nextTelemetryDeadline =
        (if SetsPeriod streamEvent then uptime + computer'.configuration.telemetryPeriodMs.toNat
        else computer.nextTelemetryDeadline) ∧
      (¬ SetsPeriod streamEvent → computer'.configuration = computer.configuration) := by
  rw [FlightComputer.handleStreamEvent] at hs
  by_cases hf : streamEvent.status = .frameDecoded
  case neg =>
    rw [if_pos hf] at hs
    cases hs
    rw [if_neg fun hp => hf hp.1]
    exact ⟨rfl, fun _ => rfl⟩
  rw [if_neg (not_not.mpr hf)] at hs
  dsimp only at hs
  by_cases hok : (decodeCommand streamEvent.frame.view).ok
  case neg =>
    rw [if_pos hok] at hs
    cases hs
    rw [if_neg fun hp => hok hp.2.1]
    exact ⟨rfl, fun _ => rfl⟩
  rw [if_neg (not_not.mpr hok), handleCommand_eq hi] at hs
  cases hs
  dsimp only [commandedDeadline, commandedConfiguration]
  -- the period is set exactly where the deadline is
  by_cases hp : SetsPeriod streamEvent
  · rw [if_pos hp]
    have hin := (answer_accepted_period _).mp ⟨hp.2.2.2, hp.2.2.1⟩
    rw [if_pos hin, if_pos hin]
    exact ⟨rfl, fun hn => absurd hp hn⟩
  · rw [if_neg hp]
    have hout := fun hin => hp ⟨hf, hok, ((answer_accepted_period _).mpr hin).2,
      ((answer_accepted_period _).mpr hin).1⟩
    rw [if_neg hout, if_neg hout]
    exact ⟨rfl, fun _ => rfl⟩

/-- A stream event arms the deadline at its time if it sets the period, and not otherwise. -/
lemma OnTime.handled {armed : Int} {computer computer' : FlightComputer} (ha : OnTime armed computer)
    (hi : Invariant computer) {ready streamEvent uptime frames}
    (hs : computer.handleStreamEvent ready streamEvent uptime = (computer', frames)) :
    OnTime (if SetsPeriod streamEvent then uptime else armed) computer' := by
  obtain ⟨hd, hc⟩ := handled_deadline hi hs
  rw [OnTime, hd]
  by_cases hp : SetsPeriod streamEvent
  · rw [if_pos hp, if_pos hp]
  · rw [if_neg hp, if_neg hp, hc hp]
    exact ha

/-- The deadline is on time after every transition. -/
lemma Records.onTime {ready computer log computer'} (h : Records ready computer log computer')
    (hi : Invariant computer) {armed : Int} (ha : OnTime armed computer) :
    OnTime (lastArmed armed log) computer' := by
  induction h generalizing armed with
  | nil _ => exact ha
  | @handled computer computer1 _ call uptime frames log hs hr ih =>
    have e : lastArmed armed (.handled call uptime frames :: log) =
        lastArmed (if SetsPeriod call.event then uptime else armed) log := by
      rw [lastArmed, List.foldl_cons, Entry.armed?]
      split <;> rfl
    rw [e]
    exact ih (hi.handled hs) (ha.handled hi hs)
  | cycled hd hs _ ih => exact ih (hi.cycled hs) (.cycled hd hs)

/-- Whatever the loop receives and whatever the clock shows, it runs on, and in every state between two
things it does the next deadline is at most one period, and so at most the maximum period, after the
last telemetry cycle, the last accepted `SetTelemetryPeriod` or booting, whichever came last. Of the
calls of the stream handler, those for an accepted `SetTelemetryPeriod` move the deadline to one period
after their time, and no others move it. -/
theorem deadline_on_time (ready : Bool) (uptime : Int) (iterations : List Iteration) :
    ∃ loop log,
      run (FlightLoop.journal ready) { computer := .boot uptime } iterations = some (loop, log) ∧
      run (FlightLoop.iterate ready) { computer := .boot uptime } iterations =
        some (loop, sentBy log) ∧
      (∀ before after, log = before ++ after →
        ∃ computer, Records ready (.boot uptime) before computer ∧
          Records ready computer after loop.computer ∧
          computer.nextTelemetryDeadline ≤
            lastArmed uptime before + computer.configuration.telemetryPeriodMs.toNat ∧
          computer.nextTelemetryDeadline ≤
            lastArmed uptime before + maximumTelemetryPeriodMs.toNat) ∧
      ∀ before call time frames after, log = before ++ .handled call time frames :: after →
        ∃ computer computer', Records ready (.boot uptime) before computer ∧
          Records ready computer [.handled call time frames] computer' ∧
          Records ready computer' after loop.computer ∧
          computer'.nextTelemetryDeadline =
            if SetsPeriod call.event then time + computer'.configuration.telemetryPeriodMs.toNat
            else computer.nextTelemetryDeadline := by
  have hready : Ready ({ computer := .boot uptime } : FlightLoop).streamDecoder [] := .empty rfl
  obtain ⟨loop, log, hrun, hj⟩ :=
    run_journals hready (invariant_boot uptime) ready iterations
  refine ⟨loop, log, hrun, by rw [run_iterate_journal, hrun]; rfl, ?_, ?_⟩
  · intro before after e
    have hrec := hj.records
    rw [e] at hrec
    obtain ⟨computer, h1, h2⟩ := hrec.split
    have hon : OnTime (lastArmed uptime before) computer :=
      h1.onTime (invariant_boot uptime) (onTime_boot uptime)
    have hmax := UInt32.le_iff_toNat_le.mp (h1.invariant (invariant_boot uptime)).period.2
    refine ⟨computer, h1, h2, hon, ?_⟩
    rw [OnTime] at hon
    omega
  · intro before call time frames after e
    have hrec := hj.records
    rw [e] at hrec
    obtain ⟨computer, h1, h2⟩ := hrec.split
    cases h2 with
    | @handled _ computer' _ _ _ _ _ hs h3 =>
      have hd := (handled_deadline (h1.invariant (invariant_boot uptime)) hs).1
      exact ⟨computer, computer', h1, .handled hs (.nil _), h3, hd⟩

/-- A command half a second after booting sets the longest period. No telemetry cycle has run, and the
first will be due half a second after the longest period is over. -/
theorem period_command_postpones :
    ∃ loop log,
      run (FlightLoop.journal true) { computer := .boot 0 }
        [⟨(encodeCommand ⟨1, .setTelemetryPeriod, 10000⟩).frame.view.map (⟨·, fun _ => 500⟩), 500,
          ⟨7400, 2000, 300⟩⟩] = some (loop, log) ∧
      lastCycled 0 log = 0 ∧ loop.computer.nextTelemetryDeadline = 10500 ∧
      ¬ loop.computer.nextTelemetryDeadline ≤ lastCycled 0 log + maximumTelemetryPeriodMs.toNat := by
  have h : (run (FlightLoop.journal true) { computer := .boot 0 }
      [⟨(encodeCommand ⟨1, .setTelemetryPeriod, 10000⟩).frame.view.map (⟨·, fun _ => 500⟩), 500,
        ⟨7400, 2000, 300⟩⟩]).map
      (fun p => (lastCycled 0 p.2, p.1.computer.nextTelemetryDeadline)) = some (0, 10500) := by
    decide +kernel
  obtain ⟨⟨loop, log⟩, hrun, e⟩ := Option.map_eq_some_iff.mp h
  obtain ⟨e1, e2⟩ := Prod.mk.inj e
  refine ⟨loop, log, hrun, e1, e2, ?_⟩
  rw [e1, e2]
  decide

end ApogeeFC.Flight
