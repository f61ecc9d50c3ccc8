import ApogeeFC.Flight.Pace
import ApogeeFC.Stream.Accounting

/-!
# The budget of the downlink

How much the flight computer can be made to transmit. Acknowledgements are paid for by the commands that
were received, a byte more for each, as frames do not overlap; telemetry by the time that has gone by, as
no period is shorter than the shortest. Nothing else is transmitted (`downlink_budget`).
-/

namespace ApogeeFC.Flight
open Codec Mealy ApogeeFC.Stream

/-- The length of what was transmitted over a journal. -/
abbrev transmittedBytes (log : List Entry) : Nat := ((sentBy log).flatMap EncodedFrame.view).length

/-- The smallest frame that carries a command. -/
abbrev commandSize : Nat := 13

abbrev acknowledgementSize : Nat := 14

abbrev telemetrySize : Nat := 31

lemma le_length_of_decodeCommand {b : List UInt8} (h : (decodeCommand b).ok) :
    commandSize ≤ b.length := by
  obtain ⟨message, hn, -, e⟩ := decodeCommand_inv h
  obtain ⟨c, hc⟩ := hn.encode
  rw [e, length_wire, commandPayload, hc, Option.toList_some, List.length_append, List.length_singleton]
  exact Nat.add_le_add_left (Nat.le_add_right 1 _) 12

lemma length_encodeCommandAck {message : CommandMessage} (h : message.command.Named) :
    (encodeCommandAck (acknowledgement message)).frame.view.length = acknowledgementSize := by
  have hs := named_answer message
  obtain ⟨c, hc⟩ := CommandId.Named.encode h
  obtain ⟨s, hs'⟩ := CommandAckStatus.Named.encode hs
  rw [(encodeCommandAck_wire h hs).2, length_wire, ackPayload]
  show 12 + ((CommandDetail.encodeCommand message.command).toList ++
    (CommandDetail.encodeAckStatus (answer message)).toList).length = _
  rw [hc, hs']
  rfl

lemma length_encodeTelemetry {message : TelemetryMessage} (h : message.Valid) :
    (encodeTelemetry message).frame.view.length = telemetrySize := by
  rw [(encodeTelemetry_wire h).2, length_wire, length_telemetryPayload h]

/-- A frame is answered with at most one byte more than it has, and what is no frame is not. -/
lemma handleStreamEvent_spends {ready : Bool} {computer computer' : FlightComputer}
    (hi : Invariant computer) {call : HandlerCall} {uptime frames}
    (hs : computer.handleStreamEvent ready call.event uptime = (computer', frames)) :
    commandSize * (frames.flatMap EncodedFrame.view).length ≤
      acknowledgementSize * call.report.decoded := by
  rw [FlightComputer.handleStreamEvent] at hs
  split at hs
  case isTrue =>
    cases hs
    exact Nat.zero_le _
  case isFalse hf =>
    dsimp only at hs
    split at hs
    case isTrue =>
      cases hs
      exact Nat.zero_le _
    case isFalse hok =>
      have hcommand := not_not.mp hok
      have hn := (encodeCommand_decode hcommand).1
      rw [handleCommand_eq hi, if_pos hn] at hs
      cases hs
      have hsize := le_length_of_decodeCommand hcommand
      have hreport : call.report.decoded = call.event.frame.view.length := by
        rw [HandlerCall.report, not_not.mp hf]
        rfl
      rw [hreport]
      cases ready with
      | false => exact Nat.zero_le _
      | true =>
        rw [transmit, if_pos rfl, List.flatMap_singleton, length_encodeCommandAck hn, Nat.mul_comm]
        exact Nat.mul_le_mul_left _ hsize

/-- A telemetry cycle transmits one frame. -/
lemma telemetryCycle_spends {ready : Bool} {computer computer' : FlightComputer}
    (hi : Invariant computer) {now readings frames}
    (hs : computer.telemetryCycle ready now readings = some (computer', frames)) :
    (frames.flatMap EncodedFrame.view).length ≤ telemetrySize := by
  obtain ⟨deadline, -, hc⟩ := telemetryCycle_eq hi ready now readings
  rw [hs] at hc
  cases hc
  cases ready with
  | false => exact Nat.zero_le _
  | true =>
    rw [transmit, if_pos rfl, List.flatMap_singleton,
      length_encodeTelemetry (valid_report hi now readings)]

namespace Records

variable {ready : Bool} {computer computer' : FlightComputer} {log : List Entry}

/-- What was transmitted is paid for by the frames received and the cycles. -/
lemma spends (h : Records ready computer log computer') (hi : Invariant computer) :
    commandSize * transmittedBytes log ≤
      acknowledgementSize * tally Report.decoded ((callsOf log).map HandlerCall.report) +
        commandSize * (telemetrySize * (cycleTimes log).length) := by
  induction h with
  | nil _ => exact Nat.zero_le _
  | @handled computer computer1 _ call uptime frames log hs _ ih =>
    have hfirst := handleStreamEvent_spends hi hs
    have hrest := ih (hi.handled hs)
    rw [transmittedBytes, sentBy, List.flatMap_cons, List.flatMap_append, List.length_append]
    show commandSize * ((frames.flatMap EncodedFrame.view).length + transmittedBytes log) ≤
      acknowledgementSize * (call.report.decoded +
        tally Report.decoded ((callsOf log).map HandlerCall.report)) +
        commandSize * (telemetrySize * (cycleTimes log).length)
    rw [Nat.mul_add, Nat.mul_add]
    omega
  | @cycled computer computer1 _ now readings frames log _ hs _ ih =>
    have hfirst := telemetryCycle_spends hi hs
    have hrest := ih (hi.cycled hs)
    rw [transmittedBytes, sentBy, List.flatMap_cons, List.flatMap_append, List.length_append]
    show commandSize * ((frames.flatMap EncodedFrame.view).length + transmittedBytes log) ≤
      acknowledgementSize * tally Report.decoded ((callsOf log).map HandlerCall.report) +
        commandSize * (telemetrySize * ((cycleTimes log).length + 1))
    rw [Nat.mul_add, Nat.mul_add, Nat.mul_add, Nat.mul_one]
    have hpaid := Nat.mul_le_mul_left commandSize hfirst
    omega

/-- The last cycle is not before all the shortest periods that the cycles before it took. -/
lemma cycles_le (h : Records ready computer log computer') (hi : Invariant computer)
    (hc : ClockRuns log) {floor last : Int} (hf : Paces floor computer log)
    (hlast : ∀ entry ∈ log, entry.time ≤ last) :
    cycleTimes log = [] ∨
      floor + minimumTelemetryPeriodMs.toNat * (cycleTimes log).length ≤
        last + minimumTelemetryPeriodMs.toNat := by
  rcases List.eq_nil_or_concat (cycleTimes log) with hnil | ⟨times, now, e⟩
  · exact .inl hnil
  · apply Or.inr
    rw [List.concat_eq_append] at e
    obtain ⟨before, rest, erest, hbefore, hrest⟩ := List.filterMap_eq_append_iff.mp e
    obtain ⟨more, readings, frames, after, emore, hmore, -⟩ := cycleTimes_eq_cons hrest
    subst emore; subst erest
    rw [← List.append_assoc] at h hc hf hlast
    obtain ⟨computer1, h1, h2⟩ := h.split
    obtain ⟨hc1, -, hcross⟩ := List.pairwise_append.mp hc
    have hpaced := h1.paces hi hc1 hcross hf
    have hlength : (cycleTimes (before ++ more)).length = times.length := by
      rw [cycleTimes, List.filterMap_append, hbefore, show List.filterMap Entry.cycled? more = [] from
        hmore, List.append_nil]
    cases h2 with
    | cycled hdue _ _ =>
      have hle := hpaced.deadline.trans hdue
      have hnow := hlast (.cycled now readings frames) (by simp)
      rw [hlength] at hle
      rw [e, List.length_append, List.length_singleton, Nat.cast_add, Nat.cast_one, Int.mul_add,
        Int.mul_one]
      change now ≤ last at hnow
      omega

end Records

/-- Whatever the loop receives and whatever periods are set: in a run of at most `span` milliseconds, by a
clock that does not go back, the loop transmits at most one byte more for each 13 that it received, and
one telemetry frame for each shortest period. -/
theorem downlink_budget (ready : Bool) (uptime : Int) (span : Nat) (iterations : List Iteration)
    (loop : FlightLoop) (log : List Entry)
    (hrun : run (FlightLoop.journal ready) { computer := .boot uptime } iterations = some (loop, log))
    (hclock : ClockRuns log)
    (hspan : ∀ entry ∈ log, uptime ≤ entry.time ∧ entry.time ≤ uptime + span) :
    run (FlightLoop.iterate ready) { computer := .boot uptime } iterations =
        some (loop, sentBy log) ∧
      (cycleTimes log).length ≤ span / minimumTelemetryPeriodMs.toNat ∧
      commandSize * transmittedBytes log ≤ acknowledgementSize * (drained ready iterations).length +
        commandSize * (telemetrySize * (span / minimumTelemetryPeriodMs.toNat)) := by
  have hready : Ready ({ computer := .boot uptime } : FlightLoop).streamDecoder [] := .empty rfl
  have hi := invariant_boot uptime
  obtain ⟨loop1, log1, hrun1, hj⟩ := run_journals hready hi ready iterations
  rw [hrun] at hrun1
  cases hrun1
  refine ⟨by rw [run_iterate_journal, hrun]; rfl, ?_⟩
  have hcycles : (cycleTimes log).length ≤ span / minimumTelemetryPeriodMs.toNat := by
    have hmin : minimumTelemetryPeriodMs.toNat = 250 := rfl
    -- the first deadline is later, and no command comes before booting
    have hfloor : Paces (uptime + minimumTelemetryPeriodMs.toNat) (.boot uptime) log := by
      refine ⟨?_, fun entry he => Int.add_le_add_right (hspan entry he).1 _⟩
      show uptime + minimumTelemetryPeriodMs.toNat ≤ uptime + (1000 : UInt32).toNat
      rw [hmin, show (1000 : UInt32).toNat = 1000 from rfl]
      omega
    rcases hj.records.cycles_le hi hclock hfloor (fun entry he => (hspan entry he).2) with e | hle
    · rw [e]
      exact Nat.zero_le _
    · rw [hmin] at hle ⊢
      omega
  refine ⟨hcycles, ?_⟩
  obtain ⟨d, calls, r, hpush, -, -, lost, hbalance, -⟩ :=
    push_balanced hready (drained ready iterations)
  rw [hj.decodes] at hpush
  cases hpush
  have hspends := hj.records.spends hi
  rw [List.length_nil, Nat.zero_add] at hbalance
  have hreceived : tally Report.decoded ((callsOf log).map HandlerCall.report) ≤
      (drained ready iterations).length := by omega
  have h1 := Nat.mul_le_mul_left acknowledgementSize hreceived
  have h2 := Nat.mul_le_mul_left commandSize (Nat.mul_le_mul_left telemetrySize hcycles)
  omega

/-- The run of `telemetry_pace_late` lasts one and a half seconds. -/
theorem downlink_budget_late :
    ∃ loop log,
      run (FlightLoop.journal true) { computer := .boot 0 }
        [⟨(encodeCommand ⟨1, .setTelemetryPeriod, 250⟩).frame.view.map (⟨·, fun _ => 500⟩), 500,
          ⟨7400, 2000, 300⟩⟩, ⟨[], 1230, ⟨7400, 2000, 300⟩⟩, ⟨[], 1250, ⟨7400, 2000, 300⟩⟩,
          ⟨[], 1500, ⟨7400, 2000, 300⟩⟩] = some (loop, log) ∧
      (cycleTimes log).length ≤ 6 ∧ 13 * transmittedBytes log ≤ 14 * 17 + 13 * (31 * 6) := by
  have h : (run (FlightLoop.journal true) { computer := .boot 0 }
      [⟨(encodeCommand ⟨1, .setTelemetryPeriod, 250⟩).frame.view.map (⟨·, fun _ => 500⟩), 500,
        ⟨7400, 2000, 300⟩⟩, ⟨[], 1230, ⟨7400, 2000, 300⟩⟩, ⟨[], 1250, ⟨7400, 2000, 300⟩⟩,
        ⟨[], 1500, ⟨7400, 2000, 300⟩⟩]).map
      (fun p => (decide (ClockRuns p.2),
        p.2.all fun entry => decide ((0 : Int) ≤ entry.time ∧ entry.time ≤ 0 + (1500 : Nat)))) =
        some (true, true) := by
    decide +kernel
  obtain ⟨⟨loop, log⟩, hrun, e⟩ := Option.map_eq_some_iff.mp h
  obtain ⟨hclock, hall⟩ := Prod.mk.inj e
  obtain ⟨-, hcycles, hbytes⟩ := downlink_budget true 0 1500 _ loop log hrun (of_decide_eq_true hclock)
    (fun entry he => of_decide_eq_true (List.all_eq_true.mp hall entry he))
  exact ⟨loop, log, hrun, hcycles, hbytes⟩

end ApogeeFC.Flight
