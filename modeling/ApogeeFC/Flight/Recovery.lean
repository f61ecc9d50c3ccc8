import ApogeeFC.Flight.Invariant

/-!
# Leaving Safe

`Safe` is left only when the fault manager confirms health, and it does so only while it holds a fault,
at the third healthy sample in a row. An `EnterSafeMode` command changes the mode and nothing else.

* It does not restart the count of healthy samples, so `Safe` may be left after fewer than three of
  them (`safe_command_holds`).
* It does not give the fault manager a fault, so from `Nominal` it leads to a `Safe` that healthy
  samples do not leave (`safe_recovers_iff`).
-/

namespace ApogeeFC.Flight
open Codec Mealy

/-- The healthy samples already counted towards the end of a fault. -/
def counted (computer : FlightComputer) : Nat :=
  if computer.faultManager.faulted then computer.faultManager.healthyStreak.toNat else 0

/-- The number of healthy samples among some steps. -/
def healthySamples : List FlightStep → Nat
  | [] => 0
  | .command _ _ :: steps => healthySamples steps
  | .telemetry _ readings :: steps =>
    healthySamples steps + if readings.WithinLimits then 1 else 0

/-- Unhealthy readings are evaluated in the step. -/
def Unhealthy : FlightStep → Prop
  | .command _ _ => False
  | .telemetry _ readings => ¬ (HealthMonitor.evaluate readings).healthy

lemma healthySamples_cons (step : FlightStep) (steps : List FlightStep) :
    healthySamples (step :: steps) = healthySamples [step] + healthySamples steps := by
  cases step with
  | command _ _ => simp [healthySamples]
  | telemetry _ _ => simp [healthySamples, Nat.add_comm]

/-- Below three healthy samples a step does not leave `Safe`, and counts at most its own sample. -/
lemma safe_step {ready : Bool} {computer computer' : FlightComputer} {step frames}
    (h : Invariant computer) (hm : computer.stateMachine.mode = .safe)
    (hn : counted computer + healthySamples [step] < 3)
    (hs : computer.step ready step = some (computer', frames)) :
    computer'.stateMachine.mode = .safe ∧
      counted computer' ≤ counted computer + healthySamples [step] := by
  cases step with
  | command message commandTime =>
    obtain ⟨e1, e2⟩ := step_command h hs
    rw [e1, commandedMode, counted, counted, e2]
    refine ⟨?_, Nat.le_add_right _ _⟩
    split
    · rfl
    · exact hm
  | telemetry now readings =>
    obtain ⟨e1, e2⟩ := step_telemetry h hs
    have hsample := sample_samples h readings
    rw [e1, counted, e2]
    generalize computer.sample readings = computer'' at hsample ⊢
    cases hsample with
    | unhealthy hw =>
      refine ⟨rfl, ?_⟩
      rw [if_pos rfl]
      exact Nat.zero_le _
    | quiet hw hf =>
      rw [if_neg hf]
      exact ⟨hm, Nat.zero_le _⟩
    | progress hw hf hlt =>
      refine ⟨hm, ?_⟩
      rw [if_pos hf, toNat_streak_succ hlt, counted, if_pos hf]
      simp [healthySamples, hw]
    | confirm hw hf he =>
      -- the third healthy sample is one too many
      rw [counted, if_pos hf] at hn
      simp [healthySamples, hw] at hn
      omega

/-- Below three healthy samples a run does not leave `Safe`. -/
lemma safe_run {ready : Bool} {computer computer' : FlightComputer} {steps frames}
    (h : Invariant computer) (hm : computer.stateMachine.mode = .safe)
    (hn : counted computer + healthySamples steps < 3)
    (hr : run (FlightComputer.step ready) computer steps = some (computer', frames)) :
    computer'.stateMachine.mode = .safe := by
  induction steps generalizing computer frames with
  | nil =>
    cases hr
    exact hm
  | cons step steps ih =>
    obtain ⟨computer₁, _, _, hs, hr, -⟩ := run_cons_inv hr
    rw [healthySamples_cons] at hn
    obtain ⟨hm₁, hc₁⟩ := safe_step h hm (by omega) hs
    exact ih (step_invariant h hs) hm₁ (by omega) hr

/-- An unhealthy sample leads to `Safe`, and restarts the count. -/
lemma unhealthy_step {ready : Bool} {computer computer' : FlightComputer} {step frames}
    (h : Invariant computer) (hu : Unhealthy step)
    (hs : computer.step ready step = some (computer', frames)) :
    computer'.stateMachine.mode = .safe ∧ counted computer' = 0 := by
  cases step with
  | command message commandTime => exact absurd hu id
  | telemetry now readings =>
    obtain ⟨e1, e2⟩ := step_telemetry h hs
    have hsample := sample_samples h readings
    rw [Unhealthy, healthy_evaluate] at hu
    rw [e1, counted, e2]
    generalize computer.sample readings = computer'' at hsample ⊢
    cases hsample with
    | unhealthy _ => exact ⟨rfl, rfl⟩
    | quiet hw _ => exact absurd hw hu
    | progress hw _ _ => exact absurd hw hu
    | confirm hw _ _ => exact absurd hw hu

/-- Below three healthy samples after an unhealthy one, the mode is `Safe`. -/
lemma safe_since_unhealthy {ready : Bool} {computer computer' : FlightComputer} {before after step frames}
    (h : Invariant computer) (hu : Unhealthy step) (hn : healthySamples after < 3)
    (hr : run (FlightComputer.step ready) computer (before ++ step :: after) =
      some (computer', frames)) : computer'.stateMachine.mode = .safe := by
  obtain ⟨computer₁, _, _, hr₁, hr, -⟩ := run_append_inv hr
  obtain ⟨computer₂, _, _, hs, hr₂, -⟩ := run_cons_inv hr
  have h₁ := run_inv step_invariant h hr₁
  obtain ⟨hm, hc⟩ := unhealthy_step h₁ hu hs
  exact safe_run (step_invariant h₁ hs) hm (by omega) hr₂

/-- In `Nominal` nothing is counted. -/
lemma counted_nominal {computer : FlightComputer} (h : Invariant computer)
    (hm : computer.stateMachine.mode = .nominal) : counted computer = 0 := by
  rw [counted, if_neg]
  intro hf
  rw [h.faulted hf] at hm
  cases hm

/-- An `EnterSafeMode` command is accepted in every reachable state, and `Safe` then lasts until the
healthy samples evaluated after it, with those the fault manager had counted before it, are three. Once
an unhealthy sample has been evaluated after it, what was counted before is void: `Safe` lasts until
three healthy ones have been evaluated after the last unhealthy one. -/
theorem safe_command_holds (ready : Bool) (uptime : Int) (steps : List FlightStep)
    (sequence periodMs : UInt32) (commandTime : Int) :
    ∃ computer frames computer₁ frames₁,
      run (FlightComputer.step ready) (.boot uptime) steps = some (computer, frames) ∧
      computer.step ready (.command ⟨sequence, .enterSafeMode, periodMs⟩ commandTime) =
        some (computer₁, frames₁) ∧
      (computer.process ⟨sequence, .enterSafeMode, periodMs⟩).2.status = .accepted ∧
      (computer.stateMachine.mode = .nominal → counted computer = 0) ∧
      ∀ later, ∃ computer₂ frames₂,
        run (FlightComputer.step ready) computer₁ later = some (computer₂, frames₂) ∧
        (healthySamples later < 3 - counted computer → computer₂.stateMachine.mode = .safe) ∧
        ∀ before step after, later = before ++ step :: after → Unhealthy step →
          healthySamples after < 3 → computer₂.stateMachine.mode = .safe := by
  obtain ⟨computer, frames, hrun, hinv⟩ := run_boot ready uptime steps
  have hinv₁ := hinv.handleCommand ready ⟨sequence, .enterSafeMode, periodMs⟩ commandTime
  refine ⟨computer, frames, _, _, hrun, rfl, by rw [process_eq hinv]; rfl, counted_nominal hinv, ?_⟩
  intro later
  obtain ⟨computer₂, frames₂, hrun₂, -⟩ :=
    run_total (fun c step => step_total ready c step) hinv₁ later
  refine ⟨computer₂, frames₂, hrun₂, fun hlt => safe_run hinv₁ ?_ ?_ hrun₂, ?_⟩
  · rw [handleCommand_eq hinv]
    rfl
  · have hc : counted (computer.handleCommand ready ⟨sequence, .enterSafeMode, periodMs⟩
        commandTime).1 = counted computer := by
      rw [handleCommand_eq hinv]
      rfl
    rw [hc]
    omega
  · intro before step after e hu hn
    subst e
    exact safe_since_unhealthy hinv₁ hu hn hrun₂

/-- Readings within all limits. -/
def healthyReadings : SensorReadings :=
  { batteryMv := 7400, boardTemperatureCentiC := 2000, solarCurrentMa := 0 }

/-- Healthy cycles at the given times. -/
def healthyCycles (times : List Int) : List FlightStep :=
  times.map fun now => .telemetry now healthyReadings

/-- The mode after some steps, for evaluation. -/
def modeAfter (steps : List FlightStep) : Option FlightMode :=
  (run (FlightComputer.step true) (.boot 0) steps).map fun result => result.1.stateMachine.mode

lemma mode_of_modeAfter {steps : List FlightStep} {mode : FlightMode} {computer frames}
    (h : modeAfter steps = some mode)
    (hr : run (FlightComputer.step true) (.boot 0) steps = some (computer, frames)) :
    computer.stateMachine.mode = mode := by
  rw [modeAfter, hr] at h
  exact Option.some.inj h

/-- Two healthy samples before the command and one after it leave `Safe`. -/
theorem safe_command_undone :
    ∃ computer frames computer₁ frames₁ computer₂ frames₂,
      run (FlightComputer.step true) (.boot 0) (healthyCycles [1000, 2000]) =
        some (computer, frames) ∧
      computer.step true (.command ⟨1, .enterSafeMode, 0⟩ 2500) = some (computer₁, frames₁) ∧
      (computer.process ⟨1, .enterSafeMode, 0⟩).2.status = .accepted ∧
      run (FlightComputer.step true) computer₁ (healthyCycles [3000]) = some (computer₂, frames₂) ∧
      healthySamples (healthyCycles [3000]) < 3 ∧ computer₂.stateMachine.mode ≠ .safe := by
  obtain ⟨computer, frames, hrun, hinv⟩ := run_boot true 0 (healthyCycles [1000, 2000])
  obtain ⟨computer₁, frames₁, hs, hinv₁⟩ :=
    step_total true computer (.command ⟨1, .enterSafeMode, 0⟩ 2500) hinv
  obtain ⟨computer₂, frames₂, hrun₂, -⟩ :=
    run_total (fun c step => step_total true c step) hinv₁ (healthyCycles [3000])
  refine ⟨computer, frames, computer₁, frames₁, computer₂, frames₂, hrun, hs,
    by rw [process_eq hinv]; rfl, hrun₂, by decide, ?_⟩
  have hmode : modeAfter (healthyCycles [1000, 2000] ++
      .command ⟨1, .enterSafeMode, 0⟩ 2500 :: healthyCycles [3000]) = some .nominal := by
    decide +kernel
  rw [mode_of_modeAfter hmode (run_append hrun (run_cons hs hrun₂))]
  decide

/-- Without a fault, steps that do not disturb leave the mode as it is. -/
lemma calm_run {ready : Bool} {computer computer' : FlightComputer} {steps frames}
    (h : Invariant computer) (hcalm : ∀ step ∈ steps, ¬ Disturbs step)
    (hf : ¬ computer.faultManager.faulted)
    (hr : run (FlightComputer.step ready) computer steps = some (computer', frames)) :
    computer'.stateMachine = computer.stateMachine := by
  induction steps generalizing computer frames with
  | nil =>
    cases hr
    rfl
  | cons step steps ih =>
    obtain ⟨computer₁, _, _, hs, hr₁, -⟩ := run_cons_inv hr
    have hstep : ¬ Disturbs step := hcalm step (by simp)
    have hsame : computer₁.stateMachine = computer.stateMachine ∧
        ¬ computer₁.faultManager.faulted := by
      cases step with
      | command message commandTime =>
        obtain ⟨e1, e2⟩ := step_command h hs
        have hc : message.command ≠ .enterSafeMode := hstep
        rw [e1, e2, commandedMode, if_neg hc]
        exact ⟨rfl, hf⟩
      | telemetry now readings =>
        obtain ⟨e1, e2⟩ := step_telemetry h hs
        have hsample := sample_samples h readings
        rw [Disturbs, not_not, healthy_evaluate] at hstep
        rw [e1, e2]
        generalize computer.sample readings = computer'' at hsample ⊢
        cases hsample with
        | unhealthy hw => exact absurd hstep hw
        | quiet _ _ => exact ⟨rfl, hf⟩
        | progress _ hf' _ => exact absurd hf' hf
        | confirm _ hf' _ => exact absurd hf' hf
    have ih := ih (step_invariant h hs) (fun s hs => hcalm s (by simp [hs])) hsame.2 hr₁
    rw [ih, hsame.1]

/-- From a fault, enough cycles that do not disturb lead to `Nominal`. -/
lemma recovery_run {ready : Bool} {computer computer' : FlightComputer} {steps frames}
    (h : Invariant computer) (hcalm : ∀ step ∈ steps, ¬ Disturbs step)
    (hf : computer.faultManager.faulted)
    (hn : 3 ≤ computer.faultManager.healthyStreak.toNat + cycles steps)
    (hr : run (FlightComputer.step ready) computer steps = some (computer', frames)) :
    computer'.stateMachine.mode = .nominal := by
  induction steps generalizing computer frames with
  | nil =>
    have hs := UInt8.lt_iff_toNat_lt.mp (h.manager.streak hf)
    change _ < 3 at hs
    change 3 ≤ _ + 0 at hn
    omega
  | cons step steps ih =>
    obtain ⟨computer₁, _, _, hs, hr₁, -⟩ := run_cons_inv hr
    have hinv₁ := step_invariant h hs
    have hstep : ¬ Disturbs step := hcalm step (by simp)
    have hcalm' : ∀ s ∈ steps, ¬ Disturbs s := fun s hs => hcalm s (by simp [hs])
    cases step with
    | command message commandTime =>
      obtain ⟨-, e⟩ := step_command h hs
      exact ih hinv₁ hcalm' (by rwa [e]) (by rwa [e]) hr₁
    | telemetry now readings =>
      obtain ⟨e1, e2⟩ := step_telemetry h hs
      have hsample := sample_samples h readings
      rw [Disturbs, not_not, healthy_evaluate] at hstep
      rw [cycles] at hn
      generalize computer.sample readings = computer'' at hsample e1 e2
      cases hsample with
      | unhealthy hw => exact absurd hstep hw
      | quiet _ hf' => exact absurd hf hf'
      | progress _ _ hlt =>
        refine ih hinv₁ hcalm' (by rwa [e2]) ?_ hr₁
        rw [e2, toNat_streak_succ hlt]
        omega
      | confirm _ _ _ =>
        -- health is confirmed, and from here on nothing happens
        rw [calm_run hinv₁ hcalm' (by rw [e2]; simp) hr₁, e1]

/-- Commands with the times at which they are processed. -/
def commandSteps (commands : List (CommandMessage × Int)) : List FlightStep :=
  commands.map fun command => .command command.1 command.2

/-- Three telemetry cycles with commands between them. -/
def threeCycles (first second third : Int × SensorReadings)
    (commands₁ commands₂ : List (CommandMessage × Int)) : List FlightStep :=
  .telemetry first.1 first.2 :: (commandSteps commands₁ ++
    .telemetry second.1 second.2 :: (commandSteps commands₂ ++ [.telemetry third.1 third.2]))

/-- The step is an `EnterSafeMode` command that is processed in `Nominal`. -/
def LeavesNominal (computer : FlightComputer) : FlightStep → Prop
  | .command message _ => message.command = .enterSafeMode ∧ computer.stateMachine.mode = .nominal
  | .telemetry _ _ => False

lemma cycles_commandSteps (commands : List (CommandMessage × Int)) (steps : List FlightStep) :
    cycles (commandSteps commands ++ steps) = cycles steps := by
  induction commands with
  | nil => rfl
  | cons command commands ih => exact ih

lemma cycles_threeCycles (first second third : Int × SensorReadings)
    (commands₁ commands₂ : List (CommandMessage × Int)) :
    cycles (threeCycles first second third commands₁ commands₂) = 3 := by
  rw [threeCycles, cycles, cycles_commandSteps, cycles, cycles_commandSteps]
  rfl

/-- Commands other than `EnterSafeMode` do not disturb. -/
lemma calm_commandSteps {commands : List (CommandMessage × Int)}
    (h : ∀ command ∈ commands, command.1.command ≠ .enterSafeMode) :
    ∀ step ∈ commandSteps commands, ¬ Disturbs step := by
  intro step hs
  obtain ⟨command, hmem, e⟩ := List.mem_map.mp hs
  subst e
  exact h command hmem

/-- Three healthy cycles with such commands between them do not disturb. -/
lemma calm_threeCycles {first second third : Int × SensorReadings}
    {commands₁ commands₂ : List (CommandMessage × Int)} (h1 : first.2.WithinLimits)
    (h2 : second.2.WithinLimits) (h3 : third.2.WithinLimits)
    (hc : ∀ command ∈ commands₁ ++ commands₂, command.1.command ≠ .enterSafeMode) :
    ∀ step ∈ threeCycles first second third commands₁ commands₂, ¬ Disturbs step := by
  rw [List.forall_mem_append] at hc
  rw [threeCycles, List.forall_mem_cons, List.forall_mem_append, List.forall_mem_cons,
    List.forall_mem_append, List.forall_mem_singleton]
  exact ⟨not_not.mpr (healthy_evaluate.mpr h1), calm_commandSteps hc.1,
    not_not.mpr (healthy_evaluate.mpr h2), calm_commandSteps hc.2,
    not_not.mpr (healthy_evaluate.mpr h3)⟩

/-- What one step does to a `Safe` without a fault. -/
lemma stranded_step {ready : Bool} {computer computer' : FlightComputer} {step frames}
    (h : Invariant computer) (hs : computer.step ready step = some (computer', frames)) :
    (computer'.stateMachine.mode = .safe ∧ ¬ computer'.faultManager.faulted) ↔
      LeavesNominal computer step ∨
        (computer.stateMachine.mode = .safe ∧ ¬ computer.faultManager.faulted) ∧
          ¬ Unhealthy step := by
  cases step with
  | command message commandTime =>
    obtain ⟨e1, e2⟩ := step_command h hs
    rw [e1, e2, commandedMode, LeavesNominal, Unhealthy]
    by_cases hc : message.command = .enterSafeMode
    · obtain hm | hm := h.mode
      · simp [hc, hm]
      · have hf : ¬ computer.faultManager.faulted := by
          intro hf
          rw [h.faulted hf] at hm
          cases hm
        simp [hc, hm, hf]
    · simp [hc]
  | telemetry now readings =>
    obtain ⟨e1, e2⟩ := step_telemetry h hs
    have hsample := sample_samples h readings
    rw [e1, e2, LeavesNominal, Unhealthy, healthy_evaluate]
    generalize computer.sample readings = computer'' at hsample ⊢
    cases hsample with
    | unhealthy hw => simp [hw]
    | quiet hw hf => simp [hw, hf]
    | progress hw hf _ => simp [hf]
    | confirm hw hf _ => simp [hf]

/-- When three healthy samples recover from `Safe`: exactly if the fault manager holds a fault. It
holds none exactly if an `EnterSafeMode` command was processed in `Nominal` and no unhealthy readings
were evaluated since. -/
theorem safe_recovers_iff (ready : Bool) (uptime : Int) (steps : List FlightStep) :
    ∃ computer frames,
      run (FlightComputer.step ready) (.boot uptime) steps = some (computer, frames) ∧
      (computer.stateMachine.mode = .safe →
        (∀ first second third commands₁ commands₂, first.2.WithinLimits → second.2.WithinLimits →
          third.2.WithinLimits → (∀ command ∈ commands₁ ++ commands₂,
            command.1.command ≠ .enterSafeMode) →
          ∃ computer' frames', run (FlightComputer.step ready) computer
              (threeCycles first second third commands₁ commands₂) = some (computer', frames') ∧
            (computer'.stateMachine.mode = .nominal ↔ computer.faultManager.faulted)) ∧
        (computer.faultManager.faulted ↔
          ¬ ∃ before step after computer₁ frames₁, steps = before ++ step :: after ∧
            run (FlightComputer.step ready) (.boot uptime) before = some (computer₁, frames₁) ∧
            LeavesNominal computer₁ step ∧ ∀ later ∈ after, ¬ Unhealthy later)) := by
  obtain ⟨computer, frames, hrun, hinv⟩ := run_boot ready uptime steps
  refine ⟨computer, frames, hrun, fun hm => ⟨?_, ?_⟩⟩
  · intro first second third commands₁ commands₂ h1 h2 h3 hcommands
    obtain ⟨computer', frames', hrun', -⟩ := run_total (fun c step => step_total ready c step) hinv
      (threeCycles first second third commands₁ commands₂)
    refine ⟨computer', frames', hrun', ?_⟩
    have hcalm := calm_threeCycles h1 h2 h3 hcommands
    constructor
    · intro hn
      by_contra hf
      rw [calm_run hinv hcalm hf hrun', hm] at hn
      cases hn
    · intro hf
      have hcycles := cycles_threeCycles first second third commands₁ commands₂
      exact recovery_run hinv hcalm hf (by omega) hrun'
  · have hstranded := run_since
      (P := fun c => c.stateMachine.mode = .safe ∧ ¬ c.faultManager.faulted)
      step_invariant stranded_step (invariant_boot uptime) (fun h => h.2 rfl) hrun
    rw [← hstranded, not_and, not_not]
    exact ⟨fun hf _ => hf, fun hf => hf hm⟩

/-- Healthy samples do not leave the `Safe` that was commanded in `Nominal`. -/
theorem safe_stranded :
    ∃ computer frames computer' frames',
      run (FlightComputer.step true) (.boot 0) (healthyCycles [1000, 2000, 3000] ++
        [.command ⟨1, .enterSafeMode, 0⟩ 3500]) = some (computer, frames) ∧
      computer.stateMachine.mode = .safe ∧
      run (FlightComputer.step true) computer (healthyCycles [4000, 5000, 6000]) =
        some (computer', frames') ∧
      healthyReadings.WithinLimits ∧ computer'.stateMachine.mode ≠ .nominal := by
  obtain ⟨computer, frames, hrun, hinv⟩ := run_boot true 0 (healthyCycles [1000, 2000, 3000] ++
    [.command ⟨1, .enterSafeMode, 0⟩ 3500])
  obtain ⟨computer', frames', hrun', -⟩ :=
    run_total (fun c step => step_total true c step) hinv (healthyCycles [4000, 5000, 6000])
  have hmode : modeAfter (healthyCycles [1000, 2000, 3000] ++
      [.command ⟨1, .enterSafeMode, 0⟩ 3500]) = some .safe := by decide +kernel
  have hmode' : modeAfter ((healthyCycles [1000, 2000, 3000] ++
      [.command ⟨1, .enterSafeMode, 0⟩ 3500]) ++ healthyCycles [4000, 5000, 6000]) = some .safe := by
    decide +kernel
  refine ⟨computer, frames, computer', frames', hrun, mode_of_modeAfter hmode hrun, hrun',
    by decide, ?_⟩
  rw [mode_of_modeAfter hmode' (run_append hrun hrun')]
  decide

end ApogeeFC.Flight
