import ApogeeFC.Codec.CommandWire
import ApogeeFC.Codec.TelemetryWire
import ApogeeFC.Flight.Loop
import ApogeeFC.Lib.Mealy

/-!
# The invariant of the flight loop

The mode machine and the fault manager are updated separately. What ties them together in every state
the loop reaches, whatever it receives and measures, is `Invariant`: while a fault is latched the mode
is `Safe`, and what is latched while there is no fault is nothing.

`handleCommand_eq` and `telemetryCycle_eq` say once what the two kinds of steps do in such a state. From
them follow that the loop never gets stuck (`run_boot`), that telemetry never misreports a fault
(`telemetry_reports_faults`), and that the mode is a function of the history (`mode_is_history`).
-/

namespace ApogeeFC.Flight
open Codec Mealy

/-- A period that a command may set. -/
def InRange (periodMs : UInt32) : Prop :=
  minimumTelemetryPeriodMs ≤ periodMs ∧ periodMs ≤ maximumTelemetryPeriodMs

instance (periodMs : UInt32) : Decidable (InRange periodMs) := inferInstanceAs (Decidable (_ ∧ _))

/-- What holds of the flight computer between two steps. -/
structure Invariant (computer : FlightComputer) : Prop where
  mode : computer.stateMachine.mode = .safe ∨ computer.stateMachine.mode = .nominal
  manager : computer.faultManager.Valid
  faulted : computer.faultManager.faulted → computer.stateMachine.mode = .safe
  period : InRange computer.configuration.telemetryPeriodMs

lemma invariant_boot (uptime : Int) : Invariant (.boot uptime) where
  mode := .inl rfl
  manager := valid_initiallyFaulted
  faulted := fun _ => rfl
  period := (by decide : InRange 1000)

/-- How a command is answered. -/
def answer (message : CommandMessage) : CommandAckStatus :=
  match message.command with
  | .ping => .accepted
  | .enterSafeMode => .accepted
  | .setTelemetryPeriod => if InRange message.periodMs then .accepted else .invalidArgument
  | .unnamed => .invalidCommand

/-- The acknowledgement of a command. -/
def acknowledgement (message : CommandMessage) : CommandAckMessage :=
  { sequence := message.sequence, command := message.command, status := answer message }

/-- The mode machine after a command. -/
def commandedMode (computer : FlightComputer) (message : CommandMessage) : FlightModeStateMachine :=
  if message.command = .enterSafeMode then { mode := .safe } else computer.stateMachine

/-- The configuration after a command. -/
def commandedConfiguration (computer : FlightComputer) (message : CommandMessage) :
    FlightConfiguration :=
  if message.command = .setTelemetryPeriod ∧ InRange message.periodMs then
    { telemetryPeriodMs := message.periodMs }
  else computer.configuration

lemma process_eq {computer : FlightComputer} (h : Invariant computer) (message : CommandMessage) :
    computer.process message =
      ({ computer with
          stateMachine := commandedMode computer message
          configuration := commandedConfiguration computer message },
        acknowledgement message) := by
  obtain ⟨⟨mode⟩, collector, manager, configuration, deadline⟩ := computer
  obtain ⟨sequence, command, periodMs⟩ := message
  cases command with
  | ping => rfl
  | unnamed => rfl
  | enterSafeMode =>
    obtain e | e := h.mode
    · cases e
      rfl
    · cases e
      rfl
  | setTelemetryPeriod =>
    by_cases hp : InRange periodMs
    · have hn : ¬ (periodMs < minimumTelemetryPeriodMs ∨ maximumTelemetryPeriodMs < periodMs) := by
        rw [not_or, UInt32.not_lt, UInt32.not_lt]
        exact hp
      simp [FlightComputer.process, CommandProcessor.process, CommandProcessor.setTelemetryPeriod,
        commandedMode, commandedConfiguration, acknowledgement, answer, hn, hp]
    · have hn : periodMs < minimumTelemetryPeriodMs ∨ maximumTelemetryPeriodMs < periodMs := by
        rw [InRange, not_and_or, UInt32.not_le, UInt32.not_le] at hp
        exact hp
      simp [FlightComputer.process, CommandProcessor.process, CommandProcessor.setTelemetryPeriod,
        commandedMode, commandedConfiguration, acknowledgement, answer, hn, hp]

/-- The deadline after a command. -/
def commandedDeadline (computer : FlightComputer) (message : CommandMessage) (commandTime : Int) :
    Int :=
  if message.command = .setTelemetryPeriod ∧ InRange message.periodMs then
    commandTime + message.periodMs.toNat
  else computer.nextTelemetryDeadline

lemma named_answer (message : CommandMessage) : (answer message).Named := by
  obtain ⟨sequence, command, periodMs⟩ := message
  cases command with
  | setTelemetryPeriod =>
    rw [answer]
    dsimp only
    split <;> simp [CommandAckStatus.Named]
  | _ => simp [answer, CommandAckStatus.Named]

/-- A command is acknowledged exactly if its id is one of the enumerators. -/
lemma encodeCommandAck_acknowledgement (message : CommandMessage) :
    (encodeCommandAck (acknowledgement message)).ok ↔ message.command.Named :=
  ⟨fun h => (named_of_encodeCommandAck h).1,
    fun h => (encodeCommandAck_wire h (named_answer message)).1⟩

/-- An accepted period command is one in range. -/
lemma answer_accepted_period (message : CommandMessage) :
    ((acknowledgement message).status = .accepted ∧ message.command = .setTelemetryPeriod) ↔
      (message.command = .setTelemetryPeriod ∧ InRange message.periodMs) := by
  constructor
  · rintro ⟨ha, hc⟩
    refine ⟨hc, ?_⟩
    rw [acknowledgement, answer, hc] at ha
    dsimp only at ha
    split at ha
    case isTrue hp => exact hp
    case isFalse => cases ha
  · rintro ⟨hc, hp⟩
    refine ⟨?_, hc⟩
    rw [acknowledgement, answer, hc]
    exact if_pos hp

/-- What a command does. -/
lemma handleCommand_eq {computer : FlightComputer} (h : Invariant computer) (ready : Bool)
    (message : CommandMessage) (commandTime : Int) :
    computer.handleCommand ready message commandTime =
      ({ computer with
          stateMachine := commandedMode computer message
          configuration := commandedConfiguration computer message
          nextTelemetryDeadline := commandedDeadline computer message commandTime },
        if message.command.Named then
          transmit ready (encodeCommandAck (acknowledgement message)).frame
        else []) := by
  rw [FlightComputer.handleCommand, process_eq h]
  simp only [answer_accepted_period]
  refine Prod.ext ?_ ?_
  · by_cases hp : message.command = .setTelemetryPeriod ∧ InRange message.periodMs
    · simp [commandedDeadline, commandedConfiguration, hp]
    · simp [commandedDeadline, hp]
  · by_cases hn : message.command.Named
    · have hok := (encodeCommandAck_acknowledgement message).mpr hn
      rw [if_pos hn, if_neg (not_not.mpr hok)]
    · have hok := mt (encodeCommandAck_acknowledgement message).mp hn
      rw [if_neg hn, if_pos hok]

/-- A command keeps the invariant. -/
lemma Invariant.handleCommand {computer : FlightComputer} (h : Invariant computer) (ready : Bool)
    (message : CommandMessage) (commandTime : Int) :
    Invariant (computer.handleCommand ready message commandTime).1 := by
  rw [handleCommand_eq h]
  constructor
  · rw [commandedMode]
    split
    · exact .inl rfl
    · exact h.mode
  · exact h.manager
  · intro hf
    rw [commandedMode]
    split
    · rfl
    · exact h.faulted hf
  · rw [commandedConfiguration]
    split
    case isTrue hp => exact hp.2
    case isFalse => exact h.period

/-- What evaluating readings can do. -/
inductive Samples (computer : FlightComputer) (readings : SensorReadings) : FlightComputer → Prop
  | unhealthy : ¬ readings.WithinLimits →
    Samples computer readings
      { computer with
        stateMachine := { mode := .safe }
        faultManager :=
          { latchedFaultMask := computer.faultManager.latchedFaultMask |||
              (HealthMonitor.evaluate readings).faultMask
            faulted := true } }
  | quiet : readings.WithinLimits → ¬ computer.faultManager.faulted →
    Samples computer readings computer
  | progress : readings.WithinLimits → computer.faultManager.faulted →
    computer.faultManager.healthyStreak.toNat + 1 < 3 →
    Samples computer readings
      { computer with
        faultManager :=
          { computer.faultManager with healthyStreak := computer.faultManager.healthyStreak + 1 } }
  | confirm : readings.WithinLimits → computer.faultManager.faulted →
    computer.faultManager.healthyStreak.toNat + 1 = 3 →
    Samples computer readings
      { computer with stateMachine := { mode := .nominal }, faultManager := { healthyStreak := 3 } }

lemma sample_samples {computer : FlightComputer} (h : Invariant computer)
    (readings : SensorReadings) : Samples computer readings (computer.sample readings) := by
  have hu := update_updates h.manager (HealthMonitor.evaluate readings)
  obtain ⟨⟨mode⟩, collector, manager, configuration, deadline⟩ := computer
  have hsafe : manager.faulted → mode = .safe := h.faulted
  have hmode : mode = .safe ∨ mode = .nominal := h.mode
  rw [FlightComputer.sample]
  dsimp only at hu ⊢
  generalize manager.update (HealthMonitor.evaluate readings) = result at hu ⊢
  obtain ⟨manager', event⟩ := result
  dsimp only at hu ⊢
  cases hu with
  | detect hr hf =>
    have hd : (FlightModeStateMachine.dispatch ⟨mode⟩ .faultDetected).1 = ⟨.safe⟩ := by
      obtain e | e := hmode
      · subst e
        rfl
      · subst e
        rfl
    dsimp only
    rw [hd]
    exact .unhealthy (mt healthy_evaluate.mpr hr)
  | persist hr hf =>
    have e := hsafe hf
    subst e
    exact .unhealthy (mt healthy_evaluate.mpr hr)
  | quiet hr hf => exact .quiet (healthy_evaluate.mp hr) hf
  | progress hr hf hs => exact .progress (healthy_evaluate.mp hr) hf hs
  | confirm hr hf hs =>
    have e := hsafe hf
    subst e
    exact .confirm (healthy_evaluate.mp hr) hf hs

/-- Evaluating readings keeps the invariant. -/
lemma Invariant.sample {computer : FlightComputer} (h : Invariant computer)
    (readings : SensorReadings) : Invariant (computer.sample readings) := by
  have hu := update_updates h.manager (HealthMonitor.evaluate readings)
  have hs := sample_samples h readings
  have hm : (computer.sample readings).faultManager =
      (computer.faultManager.update (HealthMonitor.evaluate readings)).1 := rfl
  have hv := hu.valid h.manager (evaluate_known readings)
  rw [← hm] at hv
  generalize computer.sample readings = computer' at hs hv ⊢
  cases hs with
  | unhealthy _ => exact ⟨.inl rfl, hv, fun _ => rfl, h.period⟩
  | quiet _ _ => exact h
  | progress _ _ _ => exact ⟨h.mode, hv, h.faulted, h.period⟩
  | confirm _ _ _ => exact ⟨.inr rfl, hv, by simp, h.period⟩

/-- With a positive period the deadline gets past `now`. -/
lemma catchUp_some {period : Int} (now : Int) (hp : 0 < period) {rounds : Nat} {deadline : Int}
    (hr : (now - deadline).toNat < rounds) :
    ∃ deadline', FlightComputer.catchUp period now rounds deadline = some deadline' ∧
      now < deadline' := by
  induction rounds generalizing deadline with
  | zero => exact absurd hr (Nat.not_lt_zero _)
  | succ rounds ih =>
    rw [FlightComputer.catchUp]
    split
    case isTrue hle => exact ih (by omega)
    case isFalse hlt => exact ⟨_, rfl, Int.not_le.mp hlt⟩

/-- The message a telemetry cycle sends. -/
def report (computer : FlightComputer) (now : Int) (readings : SensorReadings) : TelemetryMessage :=
  ((computer.sample readings).capture now readings).2

section
variable (computer : FlightComputer) (now : Int) (readings : SensorReadings)

@[simp] lemma sequence_report : (report computer now readings).snapshot.sequence =
    computer.telemetryCollector.nextSequence := rfl

@[simp] lemma flightMode_report : (report computer now readings).snapshot.flightMode =
    (computer.sample readings).stateMachine.mode := rfl

@[simp] lemma sensorReadings_report :
    (report computer now readings).snapshot.sensorReadings = readings := rfl

@[simp] lemma latchedFaultMask_report : (report computer now readings).latchedFaultMask =
    (computer.sample readings).faultManager.latchedFaultMask.toUInt32 := rfl

end

/-- The message of a telemetry cycle can be encoded. -/
lemma valid_report {computer : FlightComputer} (h : Invariant computer) (now : Int)
    (readings : SensorReadings) : (report computer now readings).Valid := by
  have hs := h.sample readings
  constructor
  · intro e
    rw [flightMode_report] at e
    obtain hm | hm := hs.mode
    · rw [e] at hm
      cases hm
    · rw [e] at hm
      cases hm
  · exact known_of_lt hs.manager.known

/-- What a telemetry cycle does. -/
lemma telemetryCycle_eq {computer : FlightComputer} (h : Invariant computer) (ready : Bool)
    (now : Int) (readings : SensorReadings) :
    ∃ deadline, now < deadline ∧ computer.telemetryCycle ready now readings =
      some ({ computer.sample readings with
          telemetryCollector := { nextSequence := computer.telemetryCollector.nextSequence + 1 }
          nextTelemetryDeadline := deadline },
        transmit ready (encodeTelemetry (report computer now readings)).frame) := by
  have hperiod : (0 : Int) < computer.configuration.telemetryPeriodMs.toNat := by
    have hle := UInt32.le_iff_toNat_le.mp h.period.1
    change 250 ≤ _ at hle
    omega
  obtain ⟨deadline, hd, hlt⟩ := catchUp_some now hperiod (Nat.lt_succ_self
    (now - computer.nextTelemetryDeadline).toNat)
  have hok := (decodeTelemetry_encode (valid_report h now readings)).1
  have hd' : FlightComputer.catchUp
      ((computer.sample readings).capture now readings).1.configuration.telemetryPeriodMs.toNat now
      ((now - ((computer.sample readings).capture now readings).1.nextTelemetryDeadline).toNat + 1)
      ((computer.sample readings).capture now readings).1.nextTelemetryDeadline = some deadline := hd
  refine ⟨deadline, hlt, ?_⟩
  rw [report] at hok ⊢
  rw [FlightComputer.telemetryCycle]
  simp only [hd', hok, Option.bind_eq_bind, Option.bind_some, not_true_eq_false, if_false]
  rfl

/-- A step never gets stuck, and keeps the invariant. -/
lemma step_total (ready : Bool) (computer : FlightComputer) (step : FlightStep)
    (h : Invariant computer) :
    ∃ computer' frames, computer.step ready step = some (computer', frames) ∧
      Invariant computer' := by
  cases step with
  | command message commandTime => exact ⟨_, _, rfl, h.handleCommand ready message commandTime⟩
  | telemetry now readings =>
    obtain ⟨deadline, -, hc⟩ := telemetryCycle_eq h ready now readings
    have hs := h.sample readings
    exact ⟨_, _, hc, hs.mode, hs.manager, hs.faulted, hs.period⟩

lemma step_invariant {ready : Bool} {computer computer' : FlightComputer} {step frames}
    (h : Invariant computer) (hs : computer.step ready step = some (computer', frames)) :
    Invariant computer' := by
  obtain ⟨_, _, e, h'⟩ := step_total ready computer step h
  rw [hs] at e
  cases e
  exact h'

/-- The loop never gets stuck, and every state it reaches satisfies the invariant. -/
lemma run_boot (ready : Bool) (uptime : Int) (steps : List FlightStep) :
    ∃ computer frames, run (FlightComputer.step ready) (.boot uptime) steps = some (computer, frames) ∧
      Invariant computer :=
  run_total (fun computer step => step_total ready computer step) (invariant_boot uptime) steps

/-- The number of telemetry cycles among some steps. -/
def cycles : List FlightStep → Nat
  | [] => 0
  | .command _ _ :: steps => cycles steps
  | .telemetry _ _ :: steps => cycles steps + 1

/-- The next sequence number counts the telemetry cycles. -/
lemma nextSequence_run {ready : Bool} {computer computer' : FlightComputer} {steps frames}
    (h : Invariant computer)
    (hr : run (FlightComputer.step ready) computer steps = some (computer', frames)) :
    computer'.telemetryCollector.nextSequence =
      computer.telemetryCollector.nextSequence + .ofNat (cycles steps) := by
  induction steps generalizing computer frames with
  | nil =>
    cases hr
    simp [cycles]
  | cons step steps ih =>
    obtain ⟨computer₁, _, _, hs, hr, -⟩ := run_cons_inv hr
    rw [ih (step_invariant h hs) hr]
    cases step with
    | command message commandTime =>
      rw [FlightComputer.step, handleCommand_eq h] at hs
      cases hs
      rfl
    | telemetry now readings =>
      obtain ⟨deadline, -, hc⟩ := telemetryCycle_eq h ready now readings
      rw [FlightComputer.step, hc] at hs
      cases hs
      rw [cycles, UInt32.ofNat_add, UInt32.add_assoc, UInt32.add_comm 1]
      rfl

/-- The faults or-ed in last are still there. -/
lemma or_and_self (a b : UInt8) : (a ||| b) &&& b = b := by
  apply UInt8.toBitVec_inj.mp
  ext i
  simp only [UInt8.toBitVec_and, UInt8.toBitVec_or, BitVec.getElem_and, BitVec.getElem_or]
  cases a.toBitVec[i] <;> cases b.toBitVec[i] <;> rfl

/-- What a message of a telemetry cycle says about faults. -/
lemma report_faults {computer : FlightComputer} (h : Invariant computer) (now : Int)
    (readings : SensorReadings) :
    (report computer now readings).latchedFaultMask &&&
        (HealthMonitor.evaluate readings).faultMask.toUInt32 =
      (HealthMonitor.evaluate readings).faultMask.toUInt32 ∧
    ((report computer now readings).snapshot.flightMode = .safe ∨
      (report computer now readings).snapshot.flightMode = .nominal) ∧
    ((report computer now readings).snapshot.flightMode = .nominal →
      (report computer now readings).latchedFaultMask = 0 ∧ readings.WithinLimits) := by
  have hs := sample_samples h readings
  have hinv := h.sample readings
  rw [latchedFaultMask_report, flightMode_report, ← UInt8.toUInt32_and]
  generalize computer.sample readings = computer' at hs hinv ⊢
  refine ⟨?_, hinv.mode, ?_⟩
  · cases hs with
    | unhealthy _ => rw [or_and_self]
    | quiet hw _ => rw [faultMask_evaluate hw, UInt8.and_zero]
    | progress hw _ _ => rw [faultMask_evaluate hw, UInt8.and_zero]
    | confirm hw _ _ => rw [faultMask_evaluate hw, UInt8.and_zero]
  · intro hn
    have hf : ¬ computer'.faultManager.faulted := by
      intro hf
      rw [hinv.faulted hf] at hn
      cases hn
    refine ⟨by rw [hinv.manager.clear hf]; rfl, ?_⟩
    cases hs with
    | unhealthy _ => cases hn
    | quiet hw _ => exact hw
    | progress hw _ _ => exact hw
    | confirm hw _ _ => exact hw

/-- Telemetry never misreports a fault: whatever the loop has processed and measured before, a
telemetry cycle transmits one frame. It carries the number of cycles before it, every fault of its own
readings, and `Nominal` only if there is no fault in it and none latched. -/
theorem telemetry_reports_faults (uptime : Int) (steps : List FlightStep) (now : Int)
    (readings : SensorReadings) :
    ∃ computer frames computer' message,
      run (FlightComputer.step true) (.boot uptime) steps = some (computer, frames) ∧
      computer.step true (.telemetry now readings) =
        some (computer', [(encodeTelemetry message).frame]) ∧
      (encodeTelemetry message).ok ∧
      decodeTelemetry (encodeTelemetry message).frame.view = { message } ∧
      message.snapshot.sequence = .ofNat (cycles steps) ∧
      message.snapshot.sensorReadings = readings ∧
      message.latchedFaultMask &&& (HealthMonitor.evaluate readings).faultMask.toUInt32 =
        (HealthMonitor.evaluate readings).faultMask.toUInt32 ∧
      (message.snapshot.flightMode = .safe ∨ message.snapshot.flightMode = .nominal) ∧
      (message.snapshot.flightMode = .nominal →
        message.latchedFaultMask = 0 ∧ readings.WithinLimits) := by
  obtain ⟨computer, frames, hrun, hinv⟩ := run_boot true uptime steps
  obtain ⟨deadline, -, hcycle⟩ := telemetryCycle_eq hinv true now readings
  obtain ⟨hok, hdecode⟩ := decodeTelemetry_encode (valid_report hinv now readings)
  have hseq : (report computer now readings).snapshot.sequence = .ofNat (cycles steps) := by
    rw [sequence_report, nextSequence_run (invariant_boot uptime) hrun]
    exact UInt32.zero_add _
  exact ⟨computer, frames, _, report computer now readings, hrun, hcycle, hok, hdecode, hseq, rfl,
    report_faults hinv now readings⟩

/-- A step that confirms health: `update` returns `HealthConfirmed` in it. -/
def Confirms (computer : FlightComputer) : FlightStep → Prop
  | .command _ _ => False
  | .telemetry _ readings =>
    (computer.faultManager.update (HealthMonitor.evaluate readings)).2 = some .healthConfirmed

/-- A step that ends `Nominal`: unhealthy readings, or an `EnterSafeMode` command. -/
def Disturbs : FlightStep → Prop
  | .command message _ => message.command = .enterSafeMode
  | .telemetry _ readings => ¬ (HealthMonitor.evaluate readings).healthy

/-- Health is confirmed by the third healthy sample in a row after a fault. -/
lemma confirms_iff {computer : FlightComputer} (h : Invariant computer) {now : Int}
    {readings : SensorReadings} :
    Confirms computer (.telemetry now readings) ↔ readings.WithinLimits ∧
      computer.faultManager.faulted ∧ computer.faultManager.healthyStreak.toNat + 1 = 3 := by
  have hu := update_updates h.manager (HealthMonitor.evaluate readings)
  rw [Confirms]
  generalize computer.faultManager.update (HealthMonitor.evaluate readings) = result at hu ⊢
  obtain ⟨manager', event⟩ := result
  dsimp only at hu ⊢
  cases hu with
  | detect hr _ => exact ⟨nofun, fun hw => absurd (healthy_evaluate.mpr hw.1) hr⟩
  | persist hr _ => exact ⟨nofun, fun hw => absurd (healthy_evaluate.mpr hw.1) hr⟩
  | quiet _ hf => exact ⟨nofun, fun hw => absurd hw.2.1 hf⟩
  | progress _ _ hs => exact ⟨nofun, fun hw => absurd hw.2.2 (Nat.ne_of_lt hs)⟩
  | confirm hr hf hs => exact ⟨fun _ => ⟨healthy_evaluate.mp hr, hf, hs⟩, fun _ => rfl⟩

/-- Health is confirmed only in `Safe`, where the event is not ignored. -/
lemma confirmed_in_safe {computer : FlightComputer} (h : Invariant computer)
    {readings : SensorReadings}
    (hc : (computer.faultManager.update (HealthMonitor.evaluate readings)).2 =
      some .healthConfirmed) :
    computer.stateMachine.mode = .safe ∧ (computer.stateMachine.dispatch .healthConfirmed).2 := by
  have hconfirms : Confirms computer (.telemetry 0 readings) := hc
  have hm := h.faulted ((confirms_iff h).mp hconfirms).2.1
  refine ⟨hm, ?_⟩
  rw [FlightModeStateMachine.dispatch, hm]
  rfl

/-- What a step does to the mode and the fault manager. -/
lemma step_command {ready : Bool} {computer computer' : FlightComputer} {message commandTime frames}
    (h : Invariant computer)
    (hs : computer.step ready (.command message commandTime) = some (computer', frames)) :
    computer'.stateMachine = commandedMode computer message ∧
      computer'.faultManager = computer.faultManager := by
  rw [FlightComputer.step, handleCommand_eq h] at hs
  cases hs
  exact ⟨rfl, rfl⟩

lemma step_telemetry {ready : Bool} {computer computer' : FlightComputer} {now readings frames}
    (h : Invariant computer)
    (hs : computer.step ready (.telemetry now readings) = some (computer', frames)) :
    computer'.stateMachine = (computer.sample readings).stateMachine ∧
      computer'.faultManager = (computer.sample readings).faultManager := by
  obtain ⟨deadline, -, hc⟩ := telemetryCycle_eq h ready now readings
  rw [FlightComputer.step, hc] at hs
  cases hs
  exact ⟨rfl, rfl⟩

/-- What one step does to `Nominal`. -/
lemma nominal_step {ready : Bool} {computer computer' : FlightComputer} {step frames}
    (h : Invariant computer) (hs : computer.step ready step = some (computer', frames)) :
    computer'.stateMachine.mode = .nominal ↔
      Confirms computer step ∨ computer.stateMachine.mode = .nominal ∧ ¬ Disturbs step := by
  cases step with
  | command message commandTime =>
    rw [(step_command h hs).1, commandedMode]
    by_cases hc : message.command = .enterSafeMode
    · simp [Confirms, Disturbs, hc]
    · simp [Confirms, Disturbs, hc]
  | telemetry now readings =>
    have hsample := sample_samples h readings
    rw [(step_telemetry h hs).1, confirms_iff h, Disturbs, healthy_evaluate]
    generalize computer.sample readings = computer'' at hsample ⊢
    cases hsample with
    | unhealthy hw => simp [hw]
    | quiet hw hf => simp [hw, hf]
    | progress hw hf hs => simp [hw, Nat.ne_of_lt hs]
    | confirm hw hf hs => simp [hw, hf, hs]

/-- The mode is determined by the history, and no recovery is lost. -/
theorem mode_is_history (ready : Bool) (uptime : Int) (steps : List FlightStep) :
    ∃ computer frames,
      run (FlightComputer.step ready) (.boot uptime) steps = some (computer, frames) ∧
      computer.stateMachine.mode ≠ .boot ∧
      (∀ readings, (computer.faultManager.update (HealthMonitor.evaluate readings)).2 =
          some .healthConfirmed → computer.stateMachine.mode = .safe ∧
            (computer.stateMachine.dispatch .healthConfirmed).2) ∧
      (computer.stateMachine.mode = .nominal ↔
        ∃ before step after computer₁ frames₁, steps = before ++ step :: after ∧
          run (FlightComputer.step ready) (.boot uptime) before = some (computer₁, frames₁) ∧
          Confirms computer₁ step ∧ ∀ later ∈ after, ¬ Disturbs later) := by
  obtain ⟨computer, frames, hrun, hinv⟩ := run_boot ready uptime steps
  refine ⟨computer, frames, hrun, ?_, fun readings => confirmed_in_safe hinv, ?_⟩
  · intro e
    obtain hm | hm := hinv.mode
    · rw [e] at hm
      cases hm
    · rw [e] at hm
      cases hm
  · exact run_since (P := fun c => c.stateMachine.mode = .nominal) step_invariant nominal_step
      (invariant_boot uptime) (fun e => by cases e) hrun

end ApogeeFC.Flight
