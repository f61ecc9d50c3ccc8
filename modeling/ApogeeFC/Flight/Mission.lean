import ApogeeFC.Flight.Schedule

/-!
# The simulated mission

Model of `sensor_source.hpp`, and of the loop of `main` with the sensor source that it uses. The source
goes through eight samples for ever. So what the fault manager holds is a function of the number of
telemetry cycles (`managerAfter`), whatever is received and whatever the clock reads.

The mode is not: the operator can end `Nominal`. But it is a function of this number and of the commands
since health was last confirmed (`mission_timeline`).
-/

namespace ApogeeFC.Flight
open Codec Mealy Scan ApogeeFC.Stream

structure SimulatedSensorSource where
  nextSample : UInt8 := 0
  deriving DecidableEq, Repr

namespace SimulatedSensorSource

def samples : List SensorReadings :=
  [⟨7400, 2200, 320⟩, ⟨7380, 2250, 340⟩, ⟨7360, 2300, 360⟩, ⟨6900, 2400, 300⟩, ⟨6800, 6100, 280⟩,
    ⟨7340, 2350, 320⟩, ⟨7320, 2400, 340⟩, ⟨7300, 2450, 360⟩]

abbrev sampleCount : UInt8 := 8

/-- `read`. An index past the samples would be no reading. -/
def read (source : SimulatedSensorSource) : Option (SimulatedSensorSource × SensorReadings) := do
  let reading ← samples[source.nextSample.toNat]?
  let nextSample := source.nextSample + 1
  some ({ nextSample := if nextSample = sampleCount then 0 else nextSample }, reading)

end SimulatedSensorSource

/-- All objects of `main`. -/
structure FlightProgram where
  loop : FlightLoop
  sensorSource : SimulatedSensorSource := {}
  deriving DecidableEq, Repr

/-- What one round of the `while` loop finds: the bytes received, and the time after them. -/
structure Round where
  received : List Received
  now : Int

/-- One round, with the sensors read when the telemetry deadline has come. -/
def FlightProgram.round (ready : Bool) (program : FlightProgram) (round : Round) :
    Option (FlightProgram × List EncodedFrame) := do
  let (loop, frames) ← program.loop.drain ready round.received
  if loop.computer.nextTelemetryDeadline ≤ round.now then do
    let (sensorSource, readings) ← program.sensorSource.read
    let (loop, more) ← loop.cycle ready round.now readings
    some ({ loop, sensorSource }, frames ++ more)
  else some ({ program with loop }, frames)

/-- The program before its loop. -/
def FlightProgram.boot (uptime : Int) : FlightProgram where
  loop := { computer := .boot uptime }

/-! ## The script -/

/-- The sample of the `n`-th telemetry cycle. -/
def scripted (n : Nat) : SensorReadings :=
  SimulatedSensorSource.samples.getD (n % 8) ⟨0, 0, 0⟩

/-- The fault manager at this place in the eight samples, once it has recovered from booting. -/
def managerAt : Nat → FaultManager
  | 4 => { latchedFaultMask := 1, faulted := true }
  | 5 => { latchedFaultMask := 5, faulted := true }
  | 6 => { latchedFaultMask := 5, healthyStreak := 1, faulted := true }
  | 7 => { latchedFaultMask := 5, healthyStreak := 2, faulted := true }
  | _ => { healthyStreak := 3 }

/-- The fault manager after `n` telemetry cycles. -/
def managerAfter (n : Nat) : FaultManager :=
  if n < 3 then { healthyStreak := .ofNat n, faulted := true } else managerAt (n % 8)

/-- The event of the `n`-th telemetry cycle. -/
def scriptedEvent (n : Nat) : Option FlightEvent :=
  if n = 2 ∨ n % 8 = 7 then some .healthConfirmed
  else if n % 8 = 3 then some .faultDetected
  else none

/-- Once round the samples. -/
lemma managerAt_update : ∀ p < 8,
    (managerAt p).update (HealthMonitor.evaluate (scripted p)) =
      (managerAt ((p + 1) % 8), if p = 7 then some .healthConfirmed
        else if p = 3 then some .faultDetected else none) := by
  decide

lemma scripted_mod (n : Nat) : scripted (n % 8) = scripted n := by
  rw [scripted, scripted, Nat.mod_mod]

/-- The fault manager follows the script. -/
lemma managerAfter_update (n : Nat) :
    (managerAfter n).update (HealthMonitor.evaluate (scripted n)) =
      (managerAfter (n + 1), scriptedEvent n) := by
  have hstart : ∀ n < 3, (managerAfter n).update (HealthMonitor.evaluate (scripted n)) =
      (managerAfter (n + 1), scriptedEvent n) := by decide
  by_cases hn : n < 3
  · exact hstart n hn
  · have hp := managerAt_update (n % 8) (Nat.mod_lt n (by decide))
    have hne : n ≠ 2 := by omega
    rw [scripted_mod, Nat.mod_add_mod] at hp
    rw [managerAfter, if_neg hn, managerAfter, if_neg (by omega), hp, scriptedEvent]
    simp [hne]

/-- The readings are healthy but for two of the eight samples. -/
lemma scripted_healthy (n : Nat) :
    (HealthMonitor.evaluate (scripted n)).healthy ↔ n % 8 ≠ 3 ∧ n % 8 ≠ 4 := by
  have hp : ∀ p < 8, (HealthMonitor.evaluate (scripted p)).healthy ↔ p ≠ 3 ∧ p ≠ 4 := by decide
  rw [← scripted_mod]
  exact hp (n % 8) (Nat.mod_lt n (by decide))

/-! ## Steps that follow the script -/

/-- The telemetry cycles among the steps take the samples from the `n`-th on. -/
def Scripted : Nat → List FlightStep → Prop
  | _, [] => True
  | n, .command _ _ :: steps => Scripted n steps
  | n, .telemetry _ readings :: steps => readings = scripted n ∧ Scripted (n + 1) steps

lemma scripted_append {n : Nat} {steps more : List FlightStep} :
    Scripted n (steps ++ more) ↔ Scripted n steps ∧ Scripted (n + cycles steps) more := by
  induction steps generalizing n with
  | nil => exact ⟨fun h => ⟨trivial, h⟩, fun h => h.2⟩
  | cons step steps ih =>
    cases step with
    | command message commandTime => exact ih
    | telemetry now readings =>
      show _ ∧ Scripted (n + 1) (steps ++ more) ↔ (_ ∧ Scripted (n + 1) steps) ∧ _
      rw [ih, and_assoc, cycles, Nat.add_right_comm n 1, Nat.add_assoc n]

lemma scripted_of_cycles {n : Nat} {steps : List FlightStep} (h : cycles steps = 0) :
    Scripted n steps := by
  induction steps with
  | nil => trivial
  | cons step steps ih =>
    cases step with
    | command message commandTime => exact ih h
    | telemetry now readings => cases h

/-- The fault manager only depends on the number of cycles. -/
lemma run_manager {ready : Bool} {computer computer' : FlightComputer} {steps frames} {n : Nat}
    (h : Invariant computer) (hm : computer.faultManager = managerAfter n) (hscript : Scripted n steps)
    (hr : run (FlightComputer.step ready) computer steps = some (computer', frames)) :
    computer'.faultManager = managerAfter (n + cycles steps) := by
  induction steps generalizing computer frames n with
  | nil =>
    cases hr
    exact hm
  | cons step steps ih =>
    obtain ⟨computer₁, _, _, hs, hrest, -⟩ := run_cons_inv hr
    have hi := step_invariant h hs
    cases step with
    | command message commandTime => exact ih hi ((step_command h hs).2.trans hm) hscript hrest
    | telemetry now readings =>
      obtain ⟨e, hscript⟩ := hscript
      subst e
      have hm₁ : computer₁.faultManager = managerAfter (n + 1) := by
        rw [(step_telemetry h hs).2]
        show (computer.faultManager.update _).1 = _
        rw [hm, managerAfter_update]
      have hend := ih hi hm₁ hscript hrest
      rw [hend, cycles, Nat.add_assoc, Nat.add_comm 1]

/-- A cycle confirms health exactly where the script says so. -/
lemma confirms_script {computer : FlightComputer} {now : Int} {n : Nat}
    (hm : computer.faultManager = managerAfter n) :
    Confirms computer (.telemetry now (scripted n)) ↔ n = 2 ∨ n % 8 = 7 := by
  rw [Confirms, hm, managerAfter_update, scriptedEvent]
  dsimp only
  split
  case isTrue h => exact ⟨fun _ => h, fun _ => rfl⟩
  case isFalse h =>
    split
    · refine ⟨?_, fun h' => absurd h' h⟩
      intro e
      cases e
    · refine ⟨?_, fun h' => absurd h' h⟩
      intro e
      cases e

/-! ## The mode -/

/-- The number of cycles when health was last confirmed, if there were `n` and at least three. -/
def confirmedAt (n : Nat) : Nat := if n < 8 then 3 else n / 8 * 8

/-- The steps after the first `k` telemetry cycles. -/
def sinceCycle : Nat → List FlightStep → List FlightStep
  | 0, steps => steps
  | _ + 1, [] => []
  | k + 1, .command _ _ :: steps => sinceCycle (k + 1) steps
  | k + 1, .telemetry _ _ :: steps => sinceCycle k steps

/-- No `EnterSafeMode` has been processed since health was last confirmed. -/
def Calm (steps : List FlightStep) : Prop :=
  ∀ c ∈ commandsOf (sinceCycle (confirmedAt (cycles steps)) steps), c.command ≠ .enterSafeMode

lemma sinceCycle_zero (steps : List FlightStep) : sinceCycle 0 steps = steps := by
  cases steps with
  | nil => rfl
  | cons step steps => rfl

lemma sinceCycle_append {k : Nat} {steps : List FlightStep} (h : k ≤ cycles steps)
    (more : List FlightStep) : sinceCycle k (steps ++ more) = sinceCycle k steps ++ more := by
  induction steps generalizing k with
  | nil =>
    cases Nat.le_zero.mp h
    rw [sinceCycle_zero, sinceCycle_zero]
  | cons step steps ih =>
    cases k with
    | zero => rfl
    | succ k =>
      cases step with
      | command message commandTime => exact ih h
      | telemetry now readings => exact ih (Nat.le_of_succ_le_succ h)

lemma sinceCycle_end {steps : List FlightStep} (now : Int) (readings : SensorReadings) :
    sinceCycle (cycles steps + 1) (steps ++ [.telemetry now readings]) = [] := by
  induction steps with
  | nil => rfl
  | cons step steps ih =>
    cases step with
    | command message commandTime => exact ih
    | telemetry now readings => exact ih

lemma confirmedAt_le {n : Nat} (h : 3 ≤ n) : confirmedAt n ≤ n := by
  rw [confirmedAt]
  split
  · exact h
  · omega

section Calm
variable {steps : List FlightStep}

lemma calm_command (h : 3 ≤ cycles steps) (message : CommandMessage) (commandTime : Int) :
    Calm (steps ++ [.command message commandTime]) ↔
      Calm steps ∧ message.command ≠ .enterSafeMode := by
  have hn : cycles (steps ++ [.command message commandTime]) = cycles steps := cycles_append steps _
  rw [Calm, hn, sinceCycle_append (confirmedAt_le h), commandsOf_append, List.forall_mem_append]
  exact and_congr_right fun _ => List.forall_mem_singleton

/-- A cycle that does not confirm health. -/
lemma calm_telemetry (h : 3 ≤ cycles steps) (h7 : cycles steps % 8 ≠ 7) (now : Int)
    (readings : SensorReadings) : Calm (steps ++ [.telemetry now readings]) ↔ Calm steps := by
  have hn : cycles (steps ++ [.telemetry now readings]) = cycles steps + 1 := cycles_append steps _
  have he : confirmedAt (cycles steps + 1) = confirmedAt (cycles steps) := by
    rw [confirmedAt, confirmedAt]
    split <;> split <;> omega
  rw [Calm, hn, he, sinceCycle_append (confirmedAt_le h), commandsOf_append, List.forall_mem_append]
  exact and_iff_left (List.forall_mem_nil _)

/-- A cycle that confirms health. -/
lemma calm_confirmed (h : cycles steps = 2 ∨ cycles steps % 8 = 7) (now : Int)
    (readings : SensorReadings) : Calm (steps ++ [.telemetry now readings]) := by
  have hn : cycles (steps ++ [.telemetry now readings]) = cycles steps + 1 := cycles_append steps _
  have he : confirmedAt (cycles steps + 1) = cycles steps + 1 := by
    rw [confirmedAt]
    split <;> omega
  rw [Calm, hn, he, sinceCycle_end]
  exact List.forall_mem_nil _

end Calm

/-- The mode after steps that follow the script. -/
lemma run_mode {ready : Bool} {uptime : Int} {steps computer frames} (hscript : Scripted 0 steps)
    (hr : run (FlightComputer.step ready) (.boot uptime) steps = some (computer, frames)) :
    computer.stateMachine.mode = .nominal ↔
      3 ≤ cycles steps ∧ cycles steps % 8 < 4 ∧ Calm steps := by
  induction steps using List.reverseRecOn generalizing computer frames with
  | nil =>
    cases hr
    refine ⟨?_, fun h => absurd h.1 (by decide)⟩
    intro e
    cases e
  | append_singleton steps step ih =>
    obtain ⟨computer₁, frames₁, frames₂, hr₁, hs, -⟩ := run_append_inv hr
    rw [run_singleton] at hs
    obtain ⟨hscript₁, hstep⟩ := scripted_append.mp hscript
    have hi := run_inv step_invariant (invariant_boot uptime) hr₁
    have hm := run_manager (invariant_boot uptime) (by rfl) hscript₁ hr₁
    rw [Nat.zero_add] at hm hstep
    rw [nominal_step hi hs, ih hscript₁ hr₁, cycles_append]
    cases step with
    | command message commandTime =>
      show False ∨ _ ∧ message.command ≠ .enterSafeMode ↔ 3 ≤ cycles steps ∧ cycles steps % 8 < 4 ∧ _
      rw [false_or, and_assoc, and_assoc]
      refine and_congr_right fun h3 => and_congr_right fun _ => ?_
      exact (calm_command h3 message commandTime).symm
    | telemetry now readings =>
      obtain ⟨e, -⟩ := hstep
      subst e
      rw [confirms_script hm, Disturbs, scripted_healthy]
      show _ ↔ 3 ≤ cycles steps + 1 ∧ (cycles steps + 1) % 8 < 4 ∧ _
      constructor
      · rintro (hc | ⟨⟨h3, h4, hcalm⟩, hquiet⟩)
        · exact ⟨by omega, by omega, calm_confirmed hc now _⟩
        · exact ⟨by omega, by omega, (calm_telemetry h3 (by omega) now _).mpr hcalm⟩
      · rintro ⟨h3, h4, hcalm⟩
        by_cases hc : cycles steps = 2 ∨ cycles steps % 8 = 7
        · exact .inl hc
        · have hcalm' := (calm_telemetry (by omega) (by omega) now _).mp hcalm
          exact .inr ⟨⟨by omega, by omega, hcalm'⟩, by omega⟩

/-! ## The program -/

/-- The source reads what the script says, and stays within the samples. -/
lemma read_scripted {source : SimulatedSensorSource} {n : Nat}
    (h : source.nextSample.toNat = n % 8) :
    ∃ source', source.read = some (source', scripted n) ∧
      source'.nextSample.toNat = (n + 1) % 8 := by
  have hp : ∀ p < 8, SimulatedSensorSource.read ⟨.ofNat p⟩ =
      some (⟨.ofNat ((p + 1) % 8)⟩, scripted p) := by decide
  have hread := hp (n % 8) (Nat.mod_lt n (by decide))
  rw [← h, UInt8.ofNat_toNat, h, scripted_mod, Nat.mod_add_mod] at hread
  refine ⟨_, hread, ?_⟩
  rw [UInt8.toNat_ofNat', Nat.mod_eq_of_lt]
  omega

/-- From the pending bytes `r` and the `n`-th sample, and having drained `bytes`, the program got to the
pending bytes `r'` and the `n'`-th sample and has sent `frames`. -/
structure Flies (ready : Bool) (program : FlightProgram) (r bytes : List UInt8) (n : Nat)
    (program' : FlightProgram) (r' : List UInt8) (n' : Nat) (frames : List EncodedFrame) : Prop where
  pending : Ready program'.loop.streamDecoder r'
  sample : program'.sensorSource.nextSample.toNat = n' % 8
  refines : ∃ steps ts, run (FlightComputer.step ready) program.loop.computer steps =
      some (program'.loop.computer, frames) ∧ Scans frameScanner (r ++ bytes) ts r' ∧
    commandsOf steps = (Scan.frames ts).filterMap command? ∧ Scripted n steps ∧
    n + cycles steps = n'

/-- The bytes that the program receives. A device that is not ready delivers none. -/
def receivedIn (ready : Bool) (rounds : List Round) : List UInt8 :=
  if ready then rounds.flatMap fun round => round.received.map Received.byte else []

section Flies
variable {ready : Bool} {program program' program'' : FlightProgram} {r r' r'' bytes more : List UInt8}
  {n n' n'' : Nat} {frames frames' : List EncodedFrame}

lemma Flies.refl (h : Ready program.loop.streamDecoder r)
    (hn : program.sensorSource.nextSample.toNat = n % 8) :
    Flies ready program r [] n program r n [] where
  pending := h
  sample := hn
  refines := ⟨[], [], rfl, by rw [List.append_nil]; exact .wait h.waits, rfl, trivial, rfl⟩

lemma Flies.trans (h : Flies ready program r bytes n program' r' n' frames)
    (h' : Flies ready program' r' more n' program'' r'' n'' frames') :
    Flies ready program r (bytes ++ more) n program'' r'' n'' (frames ++ frames') := by
  obtain ⟨steps, ts, hrun, hscan, hcmd, hscript, hn⟩ := h.refines
  obtain ⟨steps', ts', hrun', hscan', hcmd', hscript', hn'⟩ := h'.refines
  subst hn
  refine ⟨h'.pending, h'.sample, steps ++ steps', ts ++ ts', run_append hrun hrun', ?_, ?_, ?_, ?_⟩
  · rw [← List.append_assoc]
    exact hscan.append hscan'
  · rw [commandsOf_append, hcmd, hcmd', frames_append, List.filterMap_append]
  · exact scripted_append.mpr ⟨hscript, hscript'⟩
  · rw [cycles_append, ← Nat.add_assoc, hn']

lemma Flies.invariant (h : Flies ready program r bytes n program' r' n' frames)
    (hi : Invariant program.loop.computer) : Invariant program'.loop.computer := by
  obtain ⟨steps, ts, hrun, -⟩ := h.refines
  exact run_inv step_invariant hi hrun

/-- The drain takes commands and no samples. -/
lemma drain_flies (h : Ready program.loop.streamDecoder r)
    (hn : program.sensorSource.nextSample.toNat = n % 8) (chunk : List Received) :
    ∃ loop' r' frames, program.loop.drain ready chunk = some (loop', frames) ∧
      Flies ready program r (if ready then chunk.map Received.byte else []) n
        { program with loop := loop' } r' n frames := by
  cases ready with
  | false => exact ⟨program.loop, r, [], rfl, .refl h hn⟩
  | true =>
    obtain ⟨loop', r', frames, hdrain, hadv⟩ := drain_advances h chunk
    obtain ⟨steps, ts, hrun, hscan, hcmd, hcyc⟩ := hadv.refines
    exact ⟨loop', r', frames, hdrain, hadv.ready, hn, steps, ts, hrun, hscan, hcmd,
      scripted_of_cycles hcyc, by rw [hcyc]; rfl⟩

/-- A telemetry cycle takes the next sample. -/
lemma cycle_flies (h : Ready program.loop.streamDecoder r)
    (hn : program.sensorSource.nextSample.toNat = n % 8) (hi : Invariant program.loop.computer)
    (now : Int) :
    ∃ sensorSource loop' frames, program.sensorSource.read = some (sensorSource, scripted n) ∧
      program.loop.cycle ready now (scripted n) = some (loop', frames) ∧
      Flies ready program r [] n ⟨loop', sensorSource⟩ r (n + 1) frames := by
  obtain ⟨sensorSource, hread, hnext⟩ := read_scripted hn
  obtain ⟨computer', frames, hs, -⟩ :=
    step_total ready program.loop.computer (.telemetry now (scripted n)) hi
  have hc : program.loop.computer.telemetryCycle ready now (scripted n) = some (computer', frames) :=
    hs
  refine ⟨sensorSource, ⟨computer', program.loop.streamDecoder⟩, frames, hread,
    by rw [FlightLoop.cycle, hc]; rfl, h, hnext, [.telemetry now (scripted n)], [], ?_, ?_, rfl,
    ⟨rfl, trivial⟩, rfl⟩
  · rw [run_singleton]
    exact hs
  · rw [List.append_nil]
    exact .wait h.waits

lemma round_flies (h : Ready program.loop.streamDecoder r)
    (hn : program.sensorSource.nextSample.toNat = n % 8) (hi : Invariant program.loop.computer)
    (round : Round) :
    ∃ program' r' n' frames, program.round ready round = some (program', frames) ∧
      Flies ready program r (if ready then round.received.map Received.byte else []) n program' r' n'
        frames := by
  obtain ⟨loop₁, r₁, frames₁, hdrain, hflies₁⟩ := drain_flies h hn round.received
  by_cases hdue : loop₁.computer.nextTelemetryDeadline ≤ round.now
  · obtain ⟨sensorSource, loop₂, frames₂, hread, hcycle, hflies₂⟩ :=
      cycle_flies hflies₁.pending hflies₁.sample (hflies₁.invariant hi) round.now
    refine ⟨⟨loop₂, sensorSource⟩, r₁, n + 1, frames₁ ++ frames₂, ?_, ?_⟩
    · have hread : program.sensorSource.read = some (sensorSource, scripted n) := hread
      have hcycle : loop₁.cycle ready round.now (scripted n) = some (loop₂, frames₂) := hcycle
      rw [FlightProgram.round, hdrain]
      dsimp only [Option.bind_eq_bind, Option.bind_some]
      rw [if_pos hdue, hread, Option.bind_some, hcycle]
      rfl
    · have hall := hflies₁.trans hflies₂
      rwa [List.append_nil] at hall
  · refine ⟨_, r₁, n, frames₁, ?_, hflies₁⟩
    rw [FlightProgram.round, hdrain]
    exact if_neg hdue

lemma run_flies (h : Ready program.loop.streamDecoder r)
    (hn : program.sensorSource.nextSample.toNat = n % 8) (hi : Invariant program.loop.computer)
    (rounds : List Round) :
    ∃ program' r' n' frames, run (FlightProgram.round ready) program rounds =
        some (program', frames) ∧
      Flies ready program r (receivedIn ready rounds) n program' r' n' frames := by
  induction rounds generalizing program r n with
  | nil =>
    refine ⟨program, r, n, [], rfl, ?_⟩
    rw [receivedIn, List.flatMap_nil, ite_self]
    exact .refl h hn
  | cons round rounds ih =>
    obtain ⟨program₁, r₁, n₁, frames₁, h₁, hflies₁⟩ := round_flies h hn hi round
    obtain ⟨program₂, r₂, n₂, frames₂, h₂, hflies₂⟩ :=
      ih hflies₁.pending hflies₁.sample (hflies₁.invariant hi)
    refine ⟨program₂, r₂, n₂, frames₁ ++ frames₂, run_cons h₁ h₂, ?_⟩
    have e : receivedIn ready (round :: rounds) =
        (if ready then round.received.map Received.byte else []) ++ receivedIn ready rounds := by
      cases ready with
      | false => rfl
      | true => rfl
    rw [e]
    exact hflies₁.trans hflies₂

end Flies

/-- The mission is scripted. Whatever is received and whatever the clock reads, on a ready device or on
one that is not, the program runs on and every sensor reading is there. What the fault manager holds
depends on the number of telemetry cycles only. The mode is `Nominal` if the last cycle was one of the
four before a fault and after a recovery, unless `EnterSafeMode` has been received since the recovery. -/
theorem mission_timeline (ready : Bool) (uptime : Int) (rounds : List Round) :
    ∃ program frames steps,
      run (FlightProgram.round ready) (.boot uptime) rounds = some (program, frames) ∧
      run (FlightComputer.step ready) (.boot uptime) steps = some (program.loop.computer, frames) ∧
      commandsOf steps =
        (Scan.frames (frameScanner.scan (receivedIn ready rounds)).1).filterMap command? ∧
      Scripted 0 steps ∧
      program.sensorSource.nextSample.toNat = cycles steps % 8 ∧
      program.loop.computer.telemetryCollector.nextSequence = .ofNat (cycles steps) ∧
      program.loop.computer.faultManager = managerAfter (cycles steps) ∧
      (program.loop.computer.stateMachine.mode = .nominal ↔
        3 ≤ cycles steps ∧ cycles steps % 8 < 4 ∧ Calm steps) := by
  obtain ⟨program, r, n, frames, hrun, hflies⟩ := @run_flies ready (.boot uptime) [] 0 (.empty rfl) rfl
    (invariant_boot uptime) rounds
  obtain ⟨steps, ts, hsteps, hscan, hcmd, hscript, hn⟩ := hflies.refines
  rw [Nat.zero_add] at hn
  rw [List.nil_append] at hscan
  have hsteps : run (FlightComputer.step ready) (.boot uptime) steps =
      some (program.loop.computer, frames) := hsteps
  refine ⟨program, frames, steps, hrun, hsteps, ?_, hscript, ?_, ?_, ?_, run_mode hscript hsteps⟩
  · rw [hscan.scan_eq, hcmd]
  · rw [hn]
    exact hflies.sample
  · rw [nextSequence_run (invariant_boot uptime) hsteps]
    exact UInt32.zero_add _
  · have hm := run_manager (invariant_boot uptime) (by rfl) hscript hsteps
    rwa [Nat.zero_add] at hm

end ApogeeFC.Flight
