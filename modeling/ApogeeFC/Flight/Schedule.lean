import ApogeeFC.Flight.Invariant
import ApogeeFC.Stream.Push

/-!
# The loop on bytes refines the loop on commands

While its UART is ready, the flight loop alternates in some order between draining the UART and
telemetry cycles. Such a `LoopEvent` list leaves open how the bytes are cut into chunks and where
between the chunks the cycles fall; the `while` loop of `main` makes one such choice
(`iterate_schedules`).

`run_advances` says what every schedule amounts to: a run of `FlightStep`s with the same frames on the
UART, in which the commands are those that the reference scan finds in the received bytes, in order,
and there is one telemetry step for each cycle.
-/

namespace ApogeeFC.Flight
open Codec Mealy Scan ApogeeFC.Stream

/-- What the loop does between two looks at the clock. -/
inductive LoopEvent where
  | drain (chunk : List Received)
  | cycle (now : Int) (readings : SensorReadings)

/-- One event, with the UART ready. -/
def FlightLoop.take (loop : FlightLoop) : LoopEvent → Option (FlightLoop × List EncodedFrame)
  | .drain chunk => loop.drain true chunk
  | .cycle now readings => loop.cycle true now readings

/-- The bytes that the events drain. -/
def receivedBytes : List LoopEvent → List UInt8
  | [] => []
  | .drain chunk :: events => chunk.map Received.byte ++ receivedBytes events
  | .cycle _ _ :: events => receivedBytes events

/-- The number of telemetry cycles among the events. -/
def telemetryCycles : List LoopEvent → Nat
  | [] => 0
  | .drain _ :: events => telemetryCycles events
  | .cycle _ _ :: events => telemetryCycles events + 1

/-- The command in a frame, if there is one. -/
def command? (frame : List UInt8) : Option CommandMessage :=
  if (decodeCommand frame).ok then some (decodeCommand frame).message else none

/-- A command frame is a frame. -/
lemma accepts_of_decodeCommand {frame : List UInt8} (h : (decodeCommand frame).ok) :
    frameScanner.Accepts frame := by
  refine accepts_iff.mpr ?_
  by_contra hok
  simp [decodeCommand, hok, CommandDecodeResult.ok] at h

/-- The commands among some steps. -/
def commandsOf : List FlightStep → List CommandMessage
  | [] => []
  | .command message _ :: steps => message :: commandsOf steps
  | .telemetry _ _ :: steps => commandsOf steps

@[simp] lemma commandsOf_append (steps more : List FlightStep) :
    commandsOf (steps ++ more) = commandsOf steps ++ commandsOf more := by
  induction steps with
  | nil => rfl
  | cons step steps ih =>
    cases step with
    | command message commandTime => exact congrArg (message :: ·) ih
    | telemetry now readings => exact ih

@[simp] lemma cycles_append (steps more : List FlightStep) :
    cycles (steps ++ more) = cycles steps + cycles more := by
  induction steps with
  | nil => exact (Nat.zero_add _).symm
  | cons step steps ih =>
    cases step with
    | command message commandTime => exact ih
    | telemetry now readings =>
      simp only [List.cons_append, cycles, ih]
      omega

/-- From the pending bytes `r`, and having received `bytes` and run `n` telemetry cycles, the loop got
to the pending bytes `r'` and has sent `frames`. -/
structure Advances (loop : FlightLoop) (r bytes : List UInt8) (n : Nat) (loop' : FlightLoop)
    (r' : List UInt8) (frames : List EncodedFrame) : Prop where
  ready : Ready loop'.streamDecoder r'
  refines : ∃ steps ts, run (FlightComputer.step true) loop.computer steps =
      some (loop'.computer, frames) ∧ Scans frameScanner (r ++ bytes) ts r' ∧
    commandsOf steps = (Scan.frames ts).filterMap command? ∧ cycles steps = n

lemma Advances.refl {loop : FlightLoop} {r : List UInt8} (h : Ready loop.streamDecoder r) :
    Advances loop r [] 0 loop r [] where
  ready := h
  refines := ⟨[], [], rfl, by rw [List.append_nil]; exact .wait h.waits, rfl, rfl⟩

lemma Advances.trans {loop loop' loop'' : FlightLoop} {r r' r'' bytes more : List UInt8} {n m}
    {frames frames' : List EncodedFrame} (h : Advances loop r bytes n loop' r' frames)
    (h' : Advances loop' r' more m loop'' r'' frames') :
    Advances loop r (bytes ++ more) (n + m) loop'' r'' (frames ++ frames') := by
  obtain ⟨steps, ts, hrun, hscan, hcmd, hcyc⟩ := h.refines
  obtain ⟨steps', ts', hrun', hscan', hcmd', hcyc'⟩ := h'.refines
  refine ⟨h'.ready, steps ++ steps', ts ++ ts', run_append hrun hrun', ?_, ?_, ?_⟩
  · rw [← List.append_assoc]
    exact hscan.append hscan'
  · rw [commandsOf_append, hcmd, hcmd', frames_append, List.filterMap_append]
  · rw [cycles_append, hcyc, hcyc']

/-- The handler processes the commands in the delivered frames and ignores everything else. -/
lemma handleCalls_steps (uptime : Nat → Int) (k : Nat) (computer : FlightComputer)
    (calls : List HandlerCall) :
    ∃ steps, run (FlightComputer.step true) computer steps =
        some (computer.handleCalls true uptime k calls) ∧
      commandsOf steps = (decodedFrames calls).filterMap command? ∧ cycles steps = 0 := by
  induction calls generalizing k computer with
  | nil => exact ⟨[], rfl, rfl, rfl⟩
  | cons call calls ih =>
    rw [FlightComputer.handleCalls, FlightComputer.handleStreamEvent]
    -- neither a call without a frame nor one without a command is a step
    by_cases hs : call.event.status = .frameDecoded
    case neg =>
      obtain ⟨steps, hrun, hcmd, hcyc⟩ := ih (k + 1) computer
      refine ⟨steps, ?_, ?_, hcyc⟩
      · rw [if_pos hs]
        exact hrun
      · rw [hcmd, decodedFrames_skip hs]
    rw [decodedFrames_cons hs, if_neg (not_not.mpr hs)]
    by_cases hok : (decodeCommand call.event.frame.view).ok
    case neg =>
      obtain ⟨steps, hrun, hcmd, hcyc⟩ := ih (k + 1) computer
      refine ⟨steps, ?_, ?_, hcyc⟩
      · rw [if_pos hok]
        exact hrun
      · rw [hcmd, List.filterMap_cons_none (by rw [command?, if_neg hok])]
    case pos =>
      obtain ⟨steps, hrun, hcmd, hcyc⟩ := ih (k + 1)
        (computer.handleCommand true (decodeCommand call.event.frame.view).message (uptime k)).1
      refine ⟨.command (decodeCommand call.event.frame.view).message (uptime k) :: steps, ?_, ?_, hcyc⟩
      · rw [if_neg (not_not.mpr hok)]
        exact run_cons rfl hrun
      · rw [commandsOf, hcmd, List.filterMap_cons_some (by rw [command?, if_pos hok])]

/-- One byte. -/
lemma receive_advances {loop : FlightLoop} {r : List UInt8} (h : Ready loop.streamDecoder r)
    (received : Received) :
    ∃ loop' r' frames, loop.receive true received = some (loop', frames) ∧
      Advances loop r [received.byte] 0 loop' r' frames := by
  obtain ⟨d', calls, ts, r', hpush, hready, hscan, hdec, -⟩ :=
    FrameStreamDecoder.push_scans h [received.byte]
  rw [FrameStreamDecoder.push, run_singleton] at hpush
  obtain ⟨steps, hrun, hcmd, hcyc⟩ :=
    handleCalls_steps received.uptime 0 loop.computer calls
  refine ⟨⟨_, d'⟩, r', _, by rw [FlightLoop.receive, hpush]; rfl, hready, steps, ts, hrun, hscan, ?_,
    hcyc⟩
  rw [hcmd, hdec]

/-- One chunk. -/
lemma drain_advances {loop : FlightLoop} {r : List UInt8} (h : Ready loop.streamDecoder r)
    (chunk : List Received) :
    ∃ loop' r' frames, loop.drain true chunk = some (loop', frames) ∧
      Advances loop r (chunk.map Received.byte) 0 loop' r' frames := by
  rw [FlightLoop.drain, if_neg (by simp)]
  induction chunk generalizing loop r with
  | nil => exact ⟨loop, r, [], rfl, .refl h⟩
  | cons received chunk ih =>
    obtain ⟨loop1, r1, frames1, h1, a1⟩ := receive_advances h received
    obtain ⟨loop2, r2, frames2, h2, a2⟩ := ih a1.ready
    exact ⟨loop2, r2, frames1 ++ frames2, run_cons h1 h2, a1.trans a2⟩

/-- One telemetry cycle. -/
lemma cycle_advances {loop : FlightLoop} {r : List UInt8} (h : Ready loop.streamDecoder r)
    (hi : Invariant loop.computer) (now : Int) (readings : SensorReadings) :
    ∃ loop' frames, loop.cycle true now readings = some (loop', frames) ∧
      Advances loop r [] 1 loop' r frames := by
  obtain ⟨computer', frames, hs, -⟩ := step_total true loop.computer (.telemetry now readings) hi
  have hc : loop.computer.telemetryCycle true now readings = some (computer', frames) := hs
  refine ⟨⟨computer', loop.streamDecoder⟩, frames, by rw [FlightLoop.cycle, hc]; rfl, h,
    [.telemetry now readings], [], ?_, ?_, rfl, rfl⟩
  · rw [run_singleton]
    exact hs
  · rw [List.append_nil]
    exact .wait h.waits

/-- Steps keep the invariant. -/
lemma Advances.invariant {loop loop' : FlightLoop} {r bytes r' : List UInt8} {n frames}
    (h : Advances loop r bytes n loop' r' frames) (hi : Invariant loop.computer) :
    Invariant loop'.computer := by
  obtain ⟨steps, ts, hrun, -⟩ := h.refines
  exact run_inv step_invariant hi hrun

/-- Every schedule comes to its end, and is a run of steps. -/
lemma run_advances {loop : FlightLoop} {r : List UInt8} (h : Ready loop.streamDecoder r)
    (hi : Invariant loop.computer) (events : List LoopEvent) :
    ∃ loop' r' frames, run FlightLoop.take loop events = some (loop', frames) ∧
      Advances loop r (receivedBytes events) (telemetryCycles events) loop' r' frames := by
  induction events generalizing loop r with
  | nil => exact ⟨loop, r, [], rfl, .refl h⟩
  | cons event events ih =>
    cases event with
    | drain chunk =>
      obtain ⟨loop1, r1, frames1, h1, a1⟩ := drain_advances h chunk
      obtain ⟨loop2, r2, frames2, h2, a2⟩ := ih a1.ready (a1.invariant hi)
      refine ⟨loop2, r2, frames1 ++ frames2, run_cons h1 h2, ?_⟩
      rw [telemetryCycles, ← Nat.zero_add (telemetryCycles events)]
      exact a1.trans a2
    | cycle now readings =>
      obtain ⟨loop1, frames1, h1, a1⟩ := cycle_advances h hi now readings
      obtain ⟨loop2, r2, frames2, h2, a2⟩ := ih a1.ready (a1.invariant hi)
      refine ⟨loop2, r2, frames1 ++ frames2, run_cons h1 h2, ?_⟩
      rw [telemetryCycles, Nat.add_comm]
      exact a1.trans a2

/-- The `while` loop of `main` follows a schedule, and drains in it what it receives. -/
lemma iterate_schedules {loop loop' : FlightLoop} {iterations : List Iteration} {frames}
    (h : run (FlightLoop.iterate true) loop iterations = some (loop', frames)) :
    ∃ events, run FlightLoop.take loop events = some (loop', frames) ∧
      receivedBytes events = iterations.flatMap fun i => i.received.map Received.byte := by
  induction iterations generalizing loop frames with
  | nil => exact ⟨[], h, rfl⟩
  | cons iteration iterations ih =>
    obtain ⟨loop1, frames1, frames2, h1, h2, e⟩ := run_cons_inv h
    obtain ⟨events, hrun, hbytes⟩ := ih h2
    subst e
    rw [FlightLoop.iterate] at h1
    obtain ⟨⟨loop0, frames0⟩, hd, h1⟩ := Option.bind_eq_some_iff.mp h1
    dsimp only at h1
    split at h1
    case isTrue =>
      obtain ⟨⟨loop3, frames3⟩, hc, h1⟩ := Option.bind_eq_some_iff.mp h1
      cases h1
      refine ⟨.drain iteration.received :: .cycle iteration.now iteration.readings :: events, ?_, ?_⟩
      · rw [List.append_assoc]
        exact run_cons hd (run_cons hc hrun)
      · simp [receivedBytes, hbytes]
    case isFalse =>
      cases h1
      refine ⟨.drain iteration.received :: events, run_cons hd hrun, ?_⟩
      simp [receivedBytes, hbytes]

end ApogeeFC.Flight
