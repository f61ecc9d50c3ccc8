import Mathlib.Tactic.Common

/-!
# Flight mode, health and fault recovery

Model of `flight_mode.hpp`, `telemetry.hpp`, `health.hpp` and `fault_manager.hpp`. A method that
changes its object returns the changed object next to its result.

The mode machine and the fault manager do not know of each other. `dispatch_cases` and `update_cases`
say once what each of them can do; what holds of the two together is proved from these.
-/

namespace ApogeeFC.Flight

inductive FlightMode where
  | boot
  | safe
  | nominal
  | unnamed
  deriving DecidableEq, Repr

inductive FlightEvent where
  | bootCompleted
  | healthConfirmed
  | faultDetected
  | safeModeRequested
  deriving DecidableEq, Repr

structure FlightModeStateMachine where
  mode : FlightMode := .boot
  deriving DecidableEq, Repr

def FlightModeStateMachine.dispatch (machine : FlightModeStateMachine) (event : FlightEvent) :
    FlightModeStateMachine × Bool :=
  match machine.mode with
  | .boot => if event = .bootCompleted then ({ mode := .safe }, true) else (machine, false)
  | .safe => if event = .healthConfirmed then ({ mode := .nominal }, true) else (machine, false)
  | .nominal =>
    if event = .faultDetected ∨ event = .safeModeRequested then ({ mode := .safe }, true)
    else (machine, false)
  | .unnamed => (machine, false)

structure SensorReadings where
  batteryMv : UInt16
  boardTemperatureCentiC : Int16
  solarCurrentMa : UInt16
  deriving DecidableEq, Repr

structure TelemetrySnapshot where
  sequence : UInt32
  uptimeMs : UInt64
  flightMode : FlightMode
  sensorReadings : SensorReadings
  deriving DecidableEq, Repr

structure TelemetryCollector where
  nextSequence : UInt32 := 0
  deriving DecidableEq, Repr

def TelemetryCollector.capture (collector : TelemetryCollector) (uptimeMs : UInt64)
    (flightMode : FlightMode) (sensorReadings : SensorReadings) :
    TelemetryCollector × TelemetrySnapshot :=
  ({ nextSequence := collector.nextSequence + 1 },
    { sequence := collector.nextSequence, uptimeMs, flightMode, sensorReadings })

inductive Fault where
  | batteryUndervoltage
  | boardUndertemperature
  | boardOvertemperature
  deriving DecidableEq, Repr

/-- The underlying value of the enumerator. -/
def Fault.bits : Fault → UInt8
  | .batteryUndervoltage => (1 : UInt8) <<< 0
  | .boardUndertemperature => (1 : UInt8) <<< 1
  | .boardOvertemperature => (1 : UInt8) <<< 2

structure HealthReport where
  activeFaults : UInt8 := 0
  deriving DecidableEq, Repr

namespace HealthReport

def healthy (report : HealthReport) : Bool := report.activeFaults = 0

def faultMask (report : HealthReport) : UInt8 := report.activeFaults

end HealthReport

namespace HealthMonitor

abbrev minimumBatteryMv : UInt16 := 7000
abbrev minimumTemperatureCentiC : Int16 := -1000
abbrev maximumTemperatureCentiC : Int16 := 6000

def addFault (activeFaults : UInt8) (fault : Fault) : UInt8 := activeFaults ||| fault.bits

def evaluate (readings : SensorReadings) : HealthReport :=
  let activeFaults : UInt8 := 0
  let activeFaults :=
    if readings.batteryMv < minimumBatteryMv then addFault activeFaults .batteryUndervoltage
    else activeFaults
  let activeFaults :=
    if readings.boardTemperatureCentiC < minimumTemperatureCentiC then
      addFault activeFaults .boardUndertemperature
    else activeFaults
  let activeFaults :=
    if maximumTemperatureCentiC < readings.boardTemperatureCentiC then
      addFault activeFaults .boardOvertemperature
    else activeFaults
  { activeFaults }

end HealthMonitor

structure FaultManager where
  latchedFaultMask : UInt8 := 0
  healthyStreak : UInt8 := 0
  faulted : Bool := false
  deriving DecidableEq, Repr

namespace FaultManager

abbrev requiredHealthySamples : UInt8 := 3

def update (manager : FaultManager) (report : HealthReport) : FaultManager × Option FlightEvent :=
  if ¬ report.healthy then
    let manager :=
      { manager with
        latchedFaultMask := manager.latchedFaultMask ||| report.faultMask
        healthyStreak := 0 }
    if ¬ manager.faulted then ({ manager with faulted := true }, some .faultDetected)
    else (manager, none)
  else if ¬ manager.faulted then (manager, none)
  else
    let manager :=
      if manager.healthyStreak < requiredHealthySamples then
        { manager with healthyStreak := manager.healthyStreak + 1 }
      else manager
    if manager.healthyStreak = requiredHealthySamples then
      -- the streak stays at three until the next fault
      ({ manager with faulted := false, latchedFaultMask := 0 }, some .healthConfirmed)
    else (manager, none)

def latchedFaults (manager : FaultManager) : HealthReport :=
  { activeFaults := manager.latchedFaultMask }

end FaultManager

/-- The readings are within all limits. -/
def SensorReadings.WithinLimits (readings : SensorReadings) : Prop :=
  HealthMonitor.minimumBatteryMv ≤ readings.batteryMv ∧
    HealthMonitor.minimumTemperatureCentiC ≤ readings.boardTemperatureCentiC ∧
    readings.boardTemperatureCentiC ≤ HealthMonitor.maximumTemperatureCentiC

instance (readings : SensorReadings) : Decidable readings.WithinLimits :=
  inferInstanceAs (Decidable (_ ∧ _ ∧ _))

/-- The monitor reports health exactly within the limits. -/
lemma healthy_evaluate {readings : SensorReadings} :
    (HealthMonitor.evaluate readings).healthy ↔ readings.WithinLimits := by
  rw [SensorReadings.WithinLimits, ← UInt16.not_lt, ← Int16.not_lt, ← Int16.not_lt]
  by_cases h1 : readings.batteryMv < HealthMonitor.minimumBatteryMv <;>
    by_cases h2 : readings.boardTemperatureCentiC < HealthMonitor.minimumTemperatureCentiC <;>
      by_cases h3 : HealthMonitor.maximumTemperatureCentiC < readings.boardTemperatureCentiC <;>
        simp [HealthMonitor.evaluate, h1, h2, h3] <;> decide

/-- No bit is set within the limits. -/
lemma faultMask_evaluate {readings : SensorReadings} (h : readings.WithinLimits) :
    (HealthMonitor.evaluate readings).faultMask = 0 :=
  of_decide_eq_true (healthy_evaluate.mpr h)

/-- The monitor uses only the bits of the enumerators. -/
lemma evaluate_known (readings : SensorReadings) :
    (HealthMonitor.evaluate readings).faultMask.toNat < 8 := by
  by_cases h1 : readings.batteryMv < HealthMonitor.minimumBatteryMv <;>
    by_cases h2 : readings.boardTemperatureCentiC < HealthMonitor.minimumTemperatureCentiC <;>
      by_cases h3 : HealthMonitor.maximumTemperatureCentiC < readings.boardTemperatureCentiC <;>
        simp [HealthMonitor.evaluate, h1, h2, h3] <;> decide

/-- What holds of a fault manager at all times. -/
structure FaultManager.Valid (manager : FaultManager) : Prop where
  known : manager.latchedFaultMask.toNat < 8
  clear : ¬ manager.faulted → manager.latchedFaultMask = 0
  streak : manager.faulted → manager.healthyStreak < FaultManager.requiredHealthySamples

/-- `FaultManager{true}` is valid. -/
lemma valid_initiallyFaulted : FaultManager.Valid { faulted := true } :=
  ⟨by decide, fun _ => rfl, fun _ => by decide⟩

/-- What `update` can do. -/
inductive Updates (manager : FaultManager) (report : HealthReport) :
    FaultManager → Option FlightEvent → Prop
  | detect : ¬ report.healthy → ¬ manager.faulted →
    Updates manager report
      { latchedFaultMask := manager.latchedFaultMask ||| report.faultMask, faulted := true }
      (some .faultDetected)
  | persist : ¬ report.healthy → manager.faulted →
    Updates manager report
      { latchedFaultMask := manager.latchedFaultMask ||| report.faultMask, faulted := true } none
  | quiet : report.healthy → ¬ manager.faulted → Updates manager report manager none
  | progress : report.healthy → manager.faulted → manager.healthyStreak.toNat + 1 < 3 →
    Updates manager report { manager with healthyStreak := manager.healthyStreak + 1 } none
  | confirm : report.healthy → manager.faulted → manager.healthyStreak.toNat + 1 = 3 →
    Updates manager report { healthyStreak := 3 } (some .healthConfirmed)

/-- The mask plays no part: a short streak is all `update` relies on. -/
lemma update_cases {manager : FaultManager}
    (h : manager.faulted → manager.healthyStreak < FaultManager.requiredHealthySamples)
    (report : HealthReport) :
    Updates manager report (manager.update report).1 (manager.update report).2 := by
  obtain ⟨mask, streak, faulted⟩ := manager
  unfold FaultManager.update
  by_cases hr : report.healthy
  case neg =>
    rw [if_pos hr]
    cases faulted with
    | false => exact .detect hr (by simp)
    | true => exact .persist hr rfl
  rw [if_neg (not_not.mpr hr)]
  cases faulted with
  | false => exact .quiet hr (by simp)
  | true =>
    have hs : streak < FaultManager.requiredHealthySamples := h rfl
    have hn : streak.toNat < 3 := UInt8.lt_iff_toNat_lt.mp hs
    have hadd : (streak + 1).toNat = streak.toNat + 1 := by
      rw [UInt8.toNat_add]
      exact Nat.mod_eq_of_lt (by change _ + 1 < 256; omega)
    have heq : streak + 1 = FaultManager.requiredHealthySamples ↔ streak.toNat + 1 = 3 := by
      rw [← UInt8.toNat_inj, hadd]
      rfl
    simp only [not_true_eq_false, if_false, hs, if_true]
    by_cases hc : streak + 1 = FaultManager.requiredHealthySamples
    · rw [if_pos hc, hc]
      exact .confirm hr rfl (heq.mp hc)
    · rw [if_neg hc]
      exact .progress hr rfl (by change streak.toNat + 1 < 3; have := mt heq.mpr hc; omega)

lemma update_updates {manager : FaultManager} (h : manager.Valid) (report : HealthReport) :
    Updates manager report (manager.update report).1 (manager.update report).2 :=
  update_cases h.streak report

/-- A short streak does not overflow. -/
lemma toNat_streak_succ {streak : UInt8} (h : streak.toNat + 1 < 3) :
    (streak + 1).toNat = streak.toNat + 1 := by
  rw [UInt8.toNat_add]
  change (_ + 1) % 256 = _
  omega

/-- Every update keeps the fault manager valid. -/
lemma Updates.valid {manager report manager' event} (h : manager.Valid)
    (hk : report.faultMask.toNat < 8) (hu : Updates manager report manager' event) :
    manager'.Valid := by
  have hor : (manager.latchedFaultMask ||| report.faultMask).toNat < 2 ^ 3 := by
    rw [UInt8.toNat_or]
    exact Nat.or_lt_two_pow h.known hk
  have hzero : (0 : UInt8) < FaultManager.requiredHealthySamples := by decide
  cases hu with
  | detect _ _ => exact ⟨hor, by simp, fun _ => hzero⟩
  | persist _ _ => exact ⟨hor, by simp, fun _ => hzero⟩
  | quiet _ _ => exact h
  | progress _ hf hs =>
    refine ⟨h.known, h.clear, fun _ => UInt8.lt_iff_toNat_lt.mpr ?_⟩
    rw [toNat_streak_succ hs]
    exact hs
  | confirm _ _ _ => exact ⟨by decide, fun _ => rfl, by simp⟩

end ApogeeFC.Flight
