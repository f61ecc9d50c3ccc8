import ApogeeFC.Flight.Mission
import ApogeeFC.System.LinkSafety

/-!
# What the simulated mission sends down

The telemetry of the simulated mission is scripted but for its times and for what `EnterSafeMode`
commands do to the mode (`mission_downlink`). The ground shows all of it, however the bytes are cut into
chunks.
-/

namespace ApogeeFC.System
open Codec Flight Ground Mealy Scan Exchange

/-- What the cycle after `before` reports, in steps that follow the script. -/
lemma report_scripted {uptime : Int} {before after : List FlightStep} {now : Int} {readings}
    {computer frames} (hscript : Scripted 0 (before ++ .telemetry now readings :: after))
    (hr : run (FlightComputer.step true) (.boot uptime) before = some (computer, frames)) :
    readings = scripted (cycles before) ∧
      (report computer now readings).snapshot.sequence = .ofNat (cycles before) ∧
      (report computer now readings).latchedFaultMask =
        (managerAfter (cycles before + 1)).latchedFaultMask.toUInt32 ∧
      ((report computer now readings).snapshot.flightMode = .nominal ↔
        2 ≤ cycles before ∧ (cycles before + 1) % 8 < 4 ∧
          Calm (before ++ [.telemetry now readings])) := by
  obtain ⟨hbefore, e, -⟩ := scripted_append.mp hscript
  rw [Nat.zero_add] at e
  have hi := run_inv step_invariant (invariant_boot uptime) hr
  have hm := run_manager (invariant_boot uptime) (by rfl) hbefore hr
  rw [Nat.zero_add] at hm
  refine ⟨e, ?_, ?_, ?_⟩
  · rw [sequence_report, nextSequence_run (invariant_boot uptime) hr]
    exact UInt32.zero_add _
  · rw [latchedFaultMask_report]
    show (computer.faultManager.update _).1.latchedFaultMask.toUInt32 = _
    rw [hm, e, managerAfter_update]
  · -- the mode reported is the mode after the cycle
    obtain ⟨computer', frames', hs, -⟩ := step_total true computer (.telemetry now readings) hi
    have hlast : Scripted 0 (before ++ [.telemetry now readings]) := by
      refine scripted_append.mpr ⟨hbefore, ?_, trivial⟩
      rw [Nat.zero_add]
      exact e
    have hmode := run_mode hlast (run_append hr ((run_singleton _ _).trans hs))
    rw [(step_telemetry hi hs).1, cycles_append] at hmode
    rw [flightMode_report, hmode]
    exact and_congr_left' Nat.succ_le_succ_iff

/-- The mission as the ground sees it. Whatever is received and whatever the clock reads, the program
sends one acknowledgement for each command in what it received, and one telemetry message for each
telemetry cycle of its run. The `k`-th one is numbered `k`, with the readings and the fault mask that the
script has there; only its time, which is that of the `k`-th cycle, is free, and whether `EnterSafeMode`
has kept it from `Nominal`. In whatever chunks they arrive, the ground shows these messages and nothing
else. -/
theorem mission_downlink (uptime : Int) (rounds : List Round) :
    ∃ program frames steps messages,
      run (FlightProgram.round true) (.boot uptime) rounds = some (program, frames) ∧
      run (FlightComputer.step true) (.boot uptime) steps = some (program.loop.computer, frames) ∧
      commandsOf steps = (Scan.frames
        (Stream.frameScanner.scan (receivedIn true rounds)).1).filterMap command? ∧
      acknowledgements messages = (commandsOf steps).map acknowledgement ∧
      (telemetryMessages messages).length = cycles steps ∧
      (∀ k message, (telemetryMessages messages)[k]? = some message →
        ∃ before now after, steps = before ++ .telemetry now (scripted k) :: after ∧
          cycles before = k ∧
          message.snapshot.sequence = .ofNat k ∧ message.snapshot.uptimeMs = .ofInt now ∧
          message.snapshot.sensorReadings = scripted k ∧
          message.latchedFaultMask = (managerAfter (k + 1)).latchedFaultMask.toUInt32 ∧
          (message.snapshot.flightMode = .nominal ↔
            2 ≤ k ∧ (k + 1) % 8 < 4 ∧ Calm (before ++ [.telemetry now (scripted k)]))) ∧
      ∀ chunks : List (List UInt8), chunks.flatten = frames.flatMap EncodedFrame.view →
        ∃ processor, GroundStreamProcessor.session {} chunks = some processor ∧
          processor.output = transcript messages ∧ processor.malformedInput = false := by
  obtain ⟨program, r, n, frames, hrun, hflies⟩ := @run_flies true (.boot uptime) [] 0 (.empty rfl) rfl
    (invariant_boot uptime) rounds
  obtain ⟨steps, ts, hsteps, hscan, hcmd, hscript, -⟩ := hflies.refines
  rw [List.nil_append] at hscan
  have hsteps : run (FlightComputer.step true) (.boot uptime) steps =
      some (program.loop.computer, frames) := hsteps
  obtain ⟨messages, hserve, hm⟩ :=
    serve_run (invariant_boot uptime) (fun c hc => named_received (hcmd ▸ hc)) hsteps
  refine ⟨program, frames, steps, messages, hrun, hsteps, by rw [hscan.scan_eq, hcmd], ?_,
    length_telemetryMessages hserve, ?_, ?_⟩
  · rw [← filterMap_request]
    exact run_answers serve_answers (invariant_boot uptime) hserve
  · intro k message hk
    obtain ⟨before, now, readings, after, computer, _, e, hcyc, hbefore, hmessage⟩ :=
      run_serve_split hserve hk
    subst e; subst hcyc; subst hmessage
    obtain ⟨e, hseq, hmask, hmode⟩ := report_scripted hscript hbefore
    subst e
    exact ⟨before, now, after, rfl, rfl, hseq, rfl, rfl, hmask, hmode⟩
  · intro chunks hchunks
    obtain ⟨processor, hsession, -, hrec⟩ := session_grammar chunks
    have hr := hrec messages (hchunks ▸ hm)
    exact ⟨processor, hsession, hr.output, hr.wellFormed⟩

end ApogeeFC.System
