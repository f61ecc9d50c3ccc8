import ApogeeFC.Flight.Deadline

/-!
# The pace of telemetry

The deadline is moved by whole periods, so a loop that was held up does not make up for the cycles it
missed: after the cycle the deadline is past `now`. A command may move the deadline back, but no earlier
than the shortest period after the command. With a clock that does not go back the cycles can therefore
not come faster than one for each shortest period, whatever is received (`telemetry_pace`).
-/

namespace ApogeeFC.Flight
open Codec Mealy ApogeeFC.Stream

/-- When the clock was looked at. -/
def Entry.time : Entry → Int
  | .handled _ uptime _ => uptime
  | .cycled now _ _ => now

/-- The times of the telemetry cycles. -/
abbrev cycleTimes (log : List Entry) : List Int := log.filterMap Entry.cycled?

/-- The clock did not go back. -/
def ClockRuns (log : List Entry) : Prop := log.Pairwise fun entry later => entry.time ≤ later.time

instance (log : List Entry) : Decidable (ClockRuns log) :=
  inferInstanceAs (Decidable (List.Pairwise _ _))

/-- The journal up to the first telemetry cycle. -/
lemma cycleTimes_eq_cons {log : List Entry} {now : Int} {times : List Int}
    (h : cycleTimes log = now :: times) :
    ∃ before readings frames after, log = before ++ .cycled now readings frames :: after ∧
      cycleTimes before = [] ∧ cycleTimes after = times := by
  obtain ⟨before, entry, after, e, hb, he, ha⟩ := List.filterMap_eq_cons_iff.mp h
  cases entry with
  | handled => cases he
  | cycled now' readings frames =>
    cases he
    exact ⟨before, readings, frames, after, e, List.filterMap_eq_nil_iff.mpr hb, ha⟩

/-- The deadline is not before `floor`, and no command can move it before that: at any time in `log`
the shortest period ends later. -/
structure Paces (floor : Int) (computer : FlightComputer) (log : List Entry) : Prop where
  deadline : floor ≤ computer.nextTelemetryDeadline
  commands : ∀ entry ∈ log, floor ≤ entry.time + minimumTelemetryPeriodMs.toNat

/-- The loop adds the period at least once, and stops past `now`. -/
lemma le_catchUp {period : Nat} {now : Int} {rounds : Nat} {deadline deadline' : Int}
    (h : FlightComputer.catchUp period now rounds deadline = some deadline') :
    deadline + period ≤ deadline' ∧ now < deadline' := by
  induction rounds generalizing deadline with
  | zero => cases h
  | succ rounds ih =>
    rw [FlightComputer.catchUp] at h
    split at h
    case isTrue =>
      obtain ⟨h1, h2⟩ := ih h
      exact ⟨by omega, h2⟩
    case isFalse hlt =>
      cases h
      exact ⟨le_refl _, Int.not_le.mp hlt⟩

/-- The shortest period is a lower bound of the one in force. -/
lemma Invariant.minimum_le {computer : FlightComputer} (hi : Invariant computer) :
    (minimumTelemetryPeriodMs.toNat : Int) ≤ computer.configuration.telemetryPeriodMs.toNat := by
  exact_mod_cast UInt32.le_iff_toNat_le.mp hi.period.1

/-- A telemetry cycle moves the deadline by the shortest period at least, and past `now`. -/
lemma telemetryCycle_moves {ready : Bool} {computer computer' : FlightComputer} {now readings frames}
    (hi : Invariant computer)
    (h : computer.telemetryCycle ready now readings = some (computer', frames)) :
    computer.nextTelemetryDeadline + minimumTelemetryPeriodMs.toNat ≤
        computer'.nextTelemetryDeadline ∧
      now < computer'.nextTelemetryDeadline := by
  obtain ⟨h1, h2⟩ := le_catchUp (telemetryCycle_deadline h).1
  exact ⟨(Int.add_le_add_left hi.minimum_le _).trans h1, h2⟩

/-- A stream event leaves the deadline or puts it one period after its own time. -/
lemma handleStreamEvent_deadline {ready : Bool} {computer computer' : FlightComputer}
    {streamEvent uptime frames} (hi : Invariant computer)
    (hs : computer.handleStreamEvent ready streamEvent uptime = (computer', frames)) :
    computer'.nextTelemetryDeadline = computer.nextTelemetryDeadline ∨
      computer'.nextTelemetryDeadline = uptime + computer'.configuration.telemetryPeriodMs.toNat := by
  have hd := (handled_deadline hi hs).1
  split at hd
  case isTrue => exact .inr hd
  case isFalse => exact .inl hd

/-- With the clock running, each cycle raises the floor by the shortest period. -/
lemma Records.paces {ready computer log computer'} (h : Records ready computer log computer')
    (hi : Invariant computer) (hc : ClockRuns log) {floor : Int} {later : List Entry}
    (hl : ∀ entry ∈ log, ∀ next ∈ later, entry.time ≤ next.time)
    (hf : Paces floor computer (log ++ later)) :
    Paces (floor + minimumTelemetryPeriodMs.toNat * (cycleTimes log).length) computer' later := by
  induction h generalizing floor with
  | nil _ => simpa using hf
  | @handled computer computer1 _ call uptime frames log hs _ ih =>
    have hnext : Paces floor computer1 (log ++ later) := by
      refine ⟨?_, fun entry he => hf.commands entry (List.mem_cons_of_mem _ he)⟩
      rcases handleStreamEvent_deadline hi hs with e | e
      · rw [e]
        exact hf.deadline
      · have htime : floor ≤ uptime + minimumTelemetryPeriodMs.toNat :=
          hf.commands _ List.mem_cons_self
        have hmin := (hi.handled hs).minimum_le
        omega
    exact ih (hi.handled hs) (List.pairwise_cons.mp hc).2
      (fun entry he => hl entry (List.mem_cons_of_mem _ he)) hnext
  | @cycled computer computer1 _ now readings frames log hd hs _ ih =>
    obtain ⟨hmove, -⟩ := telemetryCycle_moves hi hs
    have hnext : Paces (floor + minimumTelemetryPeriodMs.toNat) computer1 (log ++ later) := by
      refine ⟨(Int.add_le_add_right hf.deadline _).trans hmove, ?_⟩
      intro entry he
      -- what comes later is no earlier than the cycle, and that no earlier than the deadline
      have hnow : now ≤ entry.time := by
        rcases List.mem_append.mp he with hin | hin
        · exact (List.pairwise_cons.mp hc).1 entry hin
        · exact hl _ List.mem_cons_self entry hin
      have hdue := hf.deadline.trans hd
      omega
    have hrest := ih (hi.cycled hs) (List.pairwise_cons.mp hc).2
      (fun entry he => hl entry (List.mem_cons_of_mem _ he)) hnext
    have e : floor + minimumTelemetryPeriodMs.toNat *
          (cycleTimes (.cycled now readings frames :: log)).length =
        floor + minimumTelemetryPeriodMs.toNat +
          minimumTelemetryPeriodMs.toNat * (cycleTimes log).length := by
      rw [show cycleTimes (.cycled now readings frames :: log) = now :: cycleTimes log from rfl,
        List.length_cons]
      push_cast
      ring
    rw [e]
    exact hrest

/-- Two telemetry cycles, with others between them or not. -/
lemma Records.pace {ready computer before between after computer' readings frames readings' frames'}
    {now now' : Int}
    (h : Records ready computer (before ++ .cycled now readings frames ::
      (between ++ .cycled now' readings' frames' :: after)) computer')
    (hi : Invariant computer)
    (hc : ClockRuns (before ++ .cycled now readings frames ::
      (between ++ .cycled now' readings' frames' :: after))) :
    now + minimumTelemetryPeriodMs.toNat * (cycleTimes between).length < now' := by
  obtain ⟨computer1, h1, hrest⟩ := h.split
  have hi1 := h1.invariant hi
  obtain ⟨hnow, htail⟩ := List.pairwise_cons.mp (List.pairwise_append.mp hc).2.1
  obtain ⟨hb, -, hcross⟩ := List.pairwise_append.mp htail
  cases hrest with
  | @cycled _ computer2 _ _ _ _ _ _ hs hrest =>
    obtain ⟨computer3, h3, hrest⟩ := hrest.split
    have hp : Paces (now + 1) computer2 (between ++ .cycled now' readings' frames' :: after) := by
      refine ⟨(telemetryCycle_moves hi1 hs).2, ?_⟩
      intro entry he
      have hle : now ≤ entry.time := hnow entry he
      have hpos : (1 : Int) ≤ minimumTelemetryPeriodMs.toNat := by decide
      omega
    have hpaced := h3.paces (hi1.cycled hs) hb hcross hp
    cases hrest with
    | cycled hdue _ _ =>
      have hle := hpaced.deadline.trans hdue
      omega

/-- Whatever the loop receives, however late it comes round and whatever periods are set: if the clock
does not go back, more than `n` of the shortest periods lie between two telemetry cycles that have `n`
others between them. -/
theorem telemetry_pace (ready : Bool) (uptime : Int) (iterations : List Iteration) (loop : FlightLoop)
    (log : List Entry) (earlier between later : List Int) (now now' : Int)
    (hrun : run (FlightLoop.journal ready) { computer := .boot uptime } iterations = some (loop, log))
    (hclock : ClockRuns log)
    (hcycles : cycleTimes log = earlier ++ now :: (between ++ now' :: later)) :
    now + minimumTelemetryPeriodMs.toNat * between.length < now' := by
  have hready : Ready ({ computer := .boot uptime } : FlightLoop).streamDecoder [] := .empty rfl
  obtain ⟨loop1, log1, hrun1, hj⟩ := run_journals hready (invariant_boot uptime) ready iterations
  rw [hrun] at hrun1
  cases hrun1
  obtain ⟨before, rest, e, -, hrest⟩ := List.filterMap_eq_append_iff.mp hcycles
  obtain ⟨before1, readings, frames, rest1, e1, -, hrest1⟩ := cycleTimes_eq_cons hrest
  obtain ⟨between1, rest2, e2, hb, hrest2⟩ := List.filterMap_eq_append_iff.mp hrest1
  obtain ⟨between2, readings', frames', after, e3, hnone, -⟩ := cycleTimes_eq_cons hrest2
  have elog : log = before ++ before1 ++ .cycled now readings frames ::
      (between1 ++ between2 ++ .cycled now' readings' frames' :: after) := by
    rw [e, e1, e2, e3]
    simp
  have hlength : (cycleTimes (between1 ++ between2)).length = between.length := by
    rw [cycleTimes, List.filterMap_append, hb,
      show List.filterMap Entry.cycled? between2 = [] from hnone, List.append_nil]
  have hrec := hj.records
  rw [elog] at hrec hclock
  rw [← hlength]
  exact hrec.pace (invariant_boot uptime) hclock

/-- Half a second after booting the period is set to the shortest, and the loop comes round late for the
first cycle. The second is near it, the third is not. -/
theorem telemetry_pace_late :
    ∃ loop log,
      run (FlightLoop.journal true) { computer := .boot 0 }
        [⟨(encodeCommand ⟨1, .setTelemetryPeriod, 250⟩).frame.view.map (⟨·, fun _ => 500⟩), 500,
          ⟨7400, 2000, 300⟩⟩, ⟨[], 1230, ⟨7400, 2000, 300⟩⟩, ⟨[], 1250, ⟨7400, 2000, 300⟩⟩,
          ⟨[], 1500, ⟨7400, 2000, 300⟩⟩] = some (loop, log) ∧
      cycleTimes log = [1230, 1250, 1500] ∧
      1230 + minimumTelemetryPeriodMs.toNat * ([1250] : List Int).length < (1500 : Int) := by
  have h : (run (FlightLoop.journal true) { computer := .boot 0 }
      [⟨(encodeCommand ⟨1, .setTelemetryPeriod, 250⟩).frame.view.map (⟨·, fun _ => 500⟩), 500,
        ⟨7400, 2000, 300⟩⟩, ⟨[], 1230, ⟨7400, 2000, 300⟩⟩, ⟨[], 1250, ⟨7400, 2000, 300⟩⟩,
        ⟨[], 1500, ⟨7400, 2000, 300⟩⟩]).map
      (fun p => (cycleTimes p.2, decide (ClockRuns p.2))) = some ([1230, 1250, 1500], true) := by
    decide +kernel
  obtain ⟨⟨loop, log⟩, hrun, e⟩ := Option.map_eq_some_iff.mp h
  obtain ⟨e1, e2⟩ := Prod.mk.inj e
  exact ⟨loop, log, hrun, e1, telemetry_pace true 0 _ loop log [] [1250] [] 1230 1500 hrun
    (of_decide_eq_true e2) e1⟩

end ApogeeFC.Flight
