import ApogeeFC.Flight.Invariant
import ApogeeFC.Stream.Push

/-!
# The journal of the flight loop

The loop transmits frames; which event made it transmit which frame, and when the clock was looked at,
does not show. `FlightLoop.journal` is `FlightLoop.iterate` with an entry for every call of the stream
handler and every telemetry cycle, and the frames they transmitted in the entry. Reading only the
frames gives `iterate` back (`run_iterate_journal`), and the calls are those the stream decoder makes on
the received bytes (`run_journal_push`).

`Records` says what the entries of a journal are, one transition of the flight computer for each. What
holds over whole runs is proved by induction on it.
-/

namespace ApogeeFC.Flight
open Codec Mealy ApogeeFC.Stream

/-- What the loop did, and what it transmitted doing it. -/
inductive Entry where
  | handled (call : HandlerCall) (uptime : Int) (frames : List EncodedFrame)
  | cycled (now : Int) (readings : SensorReadings) (frames : List EncodedFrame)
  deriving DecidableEq

/-- The frames an entry transmitted. -/
def Entry.frames : Entry → List EncodedFrame
  | .handled _ _ frames => frames
  | .cycled _ _ frames => frames

/-- The frames transmitted over a journal. -/
abbrev sentBy (log : List Entry) : List EncodedFrame := log.flatMap Entry.frames

/-- The calls of the stream handler in a journal. -/
def callsOf (log : List Entry) : List HandlerCall :=
  log.filterMap fun
    | .handled call _ _ => some call
    | .cycled _ _ _ => none

/-- `handleCalls`, with an entry for each call. -/
def FlightComputer.journalCalls (ready : Bool) (uptime : Nat → Int) :
    Nat → FlightComputer → List HandlerCall → FlightComputer × List Entry
  | _, computer, [] => (computer, [])
  | k, computer, call :: calls =>
    let (computer, frames) := computer.handleStreamEvent ready call.event (uptime k)
    let (computer, more) := journalCalls ready uptime (k + 1) computer calls
    (computer, .handled call (uptime k) frames :: more)

namespace FlightLoop

/-- `receive`, with an entry for each call of the handler. -/
def journalReceive (ready : Bool) (loop : FlightLoop) (received : Received) :
    Option (FlightLoop × List Entry) := do
  let (streamDecoder, calls) ← loop.streamDecoder.pushByte received.byte
  let (computer, log) := loop.computer.journalCalls ready received.uptime 0 calls
  some ({ computer, streamDecoder }, log)

/-- `drain`, with an entry for each call of the handler. -/
def journalDrain (ready : Bool) (loop : FlightLoop) (bytes : List Received) :
    Option (FlightLoop × List Entry) :=
  if ¬ ready then some (loop, []) else Mealy.run (journalReceive ready) loop bytes

/-- `iterate`, with an entry for each call of the handler and for the telemetry cycle. -/
def journal (ready : Bool) (loop : FlightLoop) (iteration : Iteration) :
    Option (FlightLoop × List Entry) := do
  let (loop, log) ← loop.journalDrain ready iteration.received
  if loop.computer.nextTelemetryDeadline ≤ iteration.now then do
    let (loop, frames) ← loop.cycle ready iteration.now iteration.readings
    some (loop, log ++ [.cycled iteration.now iteration.readings frames])
  else some (loop, log)

end FlightLoop

lemma callsOf_append (log more : List Entry) : callsOf (log ++ more) = callsOf log ++ callsOf more := by
  simp [callsOf]

/-- The frames are those of the plain handler. -/
lemma handleCalls_journal (ready : Bool) (uptime : Nat → Int) (k : Nat) (computer : FlightComputer)
    (calls : List HandlerCall) :
    computer.handleCalls ready uptime k calls =
      Prod.map id sentBy (computer.journalCalls ready uptime k calls) := by
  induction calls generalizing k computer with
  | nil => rfl
  | cons call calls ih =>
    rw [FlightComputer.handleCalls, FlightComputer.journalCalls]
    dsimp only
    rw [ih]
    rfl

/-- The calls are those the handler was given. -/
lemma callsOf_journalCalls (ready : Bool) (uptime : Nat → Int) (k : Nat) (computer : FlightComputer)
    (calls : List HandlerCall) :
    callsOf (computer.journalCalls ready uptime k calls).2 = calls := by
  induction calls generalizing k computer with
  | nil => rfl
  | cons call calls ih => exact congrArg (call :: ·) (ih _ _)

lemma receive_journal (ready : Bool) (loop : FlightLoop) (received : Received) :
    loop.receive ready received = (loop.journalReceive ready received).map (Prod.map id sentBy) := by
  rw [FlightLoop.receive, FlightLoop.journalReceive]
  cases loop.streamDecoder.pushByte received.byte with
  | none => rfl
  | some p =>
    obtain ⟨streamDecoder, calls⟩ := p
    simp [handleCalls_journal]

lemma drain_journal (ready : Bool) (loop : FlightLoop) (bytes : List Received) :
    loop.drain ready bytes = (loop.journalDrain ready bytes).map (Prod.map id sentBy) := by
  rw [FlightLoop.drain, FlightLoop.journalDrain]
  split
  case isTrue => rfl
  case isFalse =>
    exact run_map rfl (fun _ _ => List.flatMap_append) (receive_journal ready) loop bytes

lemma iterate_journal (ready : Bool) (loop : FlightLoop) (iteration : Iteration) :
    loop.iterate ready iteration = (loop.journal ready iteration).map (Prod.map id sentBy) := by
  rw [FlightLoop.iterate, FlightLoop.journal, drain_journal]
  cases loop.journalDrain ready iteration.received with
  | none => rfl
  | some p =>
    obtain ⟨loop1, log⟩ := p
    simp only [Option.map_some, Prod.map_apply, id_eq, Option.bind_eq_bind, Option.bind_some]
    split
    case isTrue =>
      cases loop1.cycle ready iteration.now iteration.readings with
      | none => rfl
      | some q => simp [Entry.frames]
    case isFalse => rfl

/-- The frames in the journal are what the loop transmits. -/
lemma run_iterate_journal (ready : Bool) (loop : FlightLoop) (iterations : List Iteration) :
    run (FlightLoop.iterate ready) loop iterations =
      (run (FlightLoop.journal ready) loop iterations).map (Prod.map id sentBy) :=
  run_map rfl (fun _ _ => List.flatMap_append) (iterate_journal ready) loop iterations

/-- The transitions of the flight computer that the entries of a journal stand for. A telemetry cycle
is taken only when its deadline has come. -/
inductive Records (ready : Bool) : FlightComputer → List Entry → FlightComputer → Prop
  | nil (computer : FlightComputer) : Records ready computer [] computer
  | handled {computer computer' computer'' call uptime frames log} :
    computer.handleStreamEvent ready call.event uptime = (computer', frames) →
    Records ready computer' log computer'' →
    Records ready computer (.handled call uptime frames :: log) computer''
  | cycled {computer computer' computer'' now readings frames log} :
    computer.nextTelemetryDeadline ≤ now →
    computer.telemetryCycle ready now readings = some (computer', frames) →
    Records ready computer' log computer'' →
    Records ready computer (.cycled now readings frames :: log) computer''

namespace Records

variable {ready : Bool} {computer computer' computer'' : FlightComputer} {log more : List Entry}

lemma append (h : Records ready computer log computer') (h' : Records ready computer' more computer'') :
    Records ready computer (log ++ more) computer'' := by
  induction h with
  | nil _ => exact h'
  | handled hs _ ih => exact .handled hs (ih h')
  | cycled hd hs _ ih => exact .cycled hd hs (ih h')

lemma split (h : Records ready computer (log ++ more) computer'') :
    ∃ computer', Records ready computer log computer' ∧ Records ready computer' more computer'' := by
  induction log generalizing computer with
  | nil => exact ⟨computer, .nil _, h⟩
  | cons entry log ih =>
    cases h with
    | handled hs hr =>
      obtain ⟨computer', h1, h2⟩ := ih hr
      exact ⟨computer', .handled hs h1, h2⟩
    | cycled hd hs hr =>
      obtain ⟨computer', h1, h2⟩ := ih hr
      exact ⟨computer', .cycled hd hs h1, h2⟩

end Records

/-- A stream event keeps the invariant. -/
lemma Invariant.handled {computer computer' : FlightComputer} (hi : Invariant computer)
    {ready streamEvent commandTime frames}
    (hs : computer.handleStreamEvent ready streamEvent commandTime = (computer', frames)) :
    Invariant computer' := by
  rw [FlightComputer.handleStreamEvent] at hs
  split at hs
  · cases hs
    exact hi
  · dsimp only at hs
    split at hs
    · cases hs
      exact hi
    · have hc := hi.handleCommand ready (decodeCommand streamEvent.frame.view).message commandTime
      rw [hs] at hc
      exact hc

/-- A telemetry cycle keeps the invariant. -/
lemma Invariant.cycled {computer computer' : FlightComputer} (hi : Invariant computer)
    {ready now readings frames}
    (hs : computer.telemetryCycle ready now readings = some (computer', frames)) :
    Invariant computer' := by
  have hstep : computer.step ready (.telemetry now readings) = some (computer', frames) := hs
  exact step_invariant hi hstep

/-- All transitions keep the invariant. -/
lemma Records.invariant {ready computer log computer'} (h : Records ready computer log computer')
    (hi : Invariant computer) : Invariant computer' := by
  induction h with
  | nil _ => exact hi
  | handled hs _ ih => exact ih (hi.handled hs)
  | cycled _ hs _ ih => exact ih (hi.cycled hs)

/-- The calls of one `push` are recorded. -/
lemma journalCalls_records (ready : Bool) (uptime : Nat → Int) (k : Nat) (computer : FlightComputer)
    (calls : List HandlerCall) :
    Records ready computer (computer.journalCalls ready uptime k calls).2
      (computer.journalCalls ready uptime k calls).1 := by
  induction calls generalizing k computer with
  | nil => exact .nil _
  | cons call calls ih => exact .handled rfl (ih _ _)

/-- From a decoder and a computer that can go on, the loop got to such by receiving `bytes`, and did
what the journal says. -/
structure Journals (ready : Bool) (loop : FlightLoop) (bytes : List UInt8) (loop' : FlightLoop)
    (log : List Entry) : Prop where
  pending : ∃ r, Ready loop'.streamDecoder r
  decodes : loop.streamDecoder.push bytes = some (loop'.streamDecoder, callsOf log)
  records : Records ready loop.computer log loop'.computer

lemma Journals.refl {ready : Bool} {loop : FlightLoop} {r : List UInt8}
    (h : Ready loop.streamDecoder r) : Journals ready loop [] loop [] :=
  ⟨⟨r, h⟩, rfl, .nil _⟩

lemma Journals.trans {ready : Bool} {loop loop' loop'' : FlightLoop} {bytes more : List UInt8}
    {log log' : List Entry} (h : Journals ready loop bytes loop' log)
    (h' : Journals ready loop' more loop'' log') :
    Journals ready loop (bytes ++ more) loop'' (log ++ log') where
  pending := h'.pending
  decodes := by
    rw [callsOf_append]
    exact run_append h.decodes h'.decodes
  records := h.records.append h'.records

/-- One byte. -/
lemma journalReceive_journals {loop : FlightLoop} {r : List UInt8} (h : Ready loop.streamDecoder r)
    (ready : Bool) (received : Received) :
    ∃ loop' log, loop.journalReceive ready received = some (loop', log) ∧
      Journals ready loop [received.byte] loop' log := by
  obtain ⟨d', calls, ts, r', hpush, hready, -⟩ := FrameStreamDecoder.push_scans h [received.byte]
  have hbyte : loop.streamDecoder.pushByte received.byte = some (d', calls) := by
    rwa [FrameStreamDecoder.push, run_singleton] at hpush
  refine ⟨⟨_, d'⟩, _, by rw [FlightLoop.journalReceive, hbyte]; rfl, ⟨r', hready⟩, ?_,
    journalCalls_records ready received.uptime 0 loop.computer calls⟩
  rw [callsOf_journalCalls]
  exact hpush

/-- One chunk. A UART that is not ready delivers nothing. -/
lemma journalDrain_journals {loop : FlightLoop} {r : List UInt8} (h : Ready loop.streamDecoder r)
    (ready : Bool) (chunk : List Received) :
    ∃ loop' log, loop.journalDrain ready chunk = some (loop', log) ∧
      Journals ready loop (if ready then chunk.map Received.byte else []) loop' log := by
  rw [FlightLoop.journalDrain]
  cases ready with
  | false => exact ⟨loop, [], rfl, .refl h⟩
  | true =>
    simp only [not_true_eq_false, if_false, if_true]
    induction chunk generalizing loop r with
    | nil => exact ⟨loop, [], rfl, .refl h⟩
    | cons received chunk ih =>
      obtain ⟨loop1, log1, h1, j1⟩ := journalReceive_journals h true received
      obtain ⟨r1, hr1⟩ := j1.pending
      obtain ⟨loop2, log2, h2, j2⟩ := ih hr1
      exact ⟨loop2, log1 ++ log2, run_cons h1 h2, j1.trans j2⟩

/-- The bytes that reach the stream decoder. -/
def drained (ready : Bool) (iterations : List Iteration) : List UInt8 :=
  if ready then iterations.flatMap fun i => i.received.map Received.byte else []

/-- One round of the loop. -/
lemma journal_journals {loop : FlightLoop} {r : List UInt8} (h : Ready loop.streamDecoder r)
    (hi : Invariant loop.computer) (ready : Bool) (iteration : Iteration) :
    ∃ loop' log, loop.journal ready iteration = some (loop', log) ∧
      Journals ready loop (if ready then iteration.received.map Received.byte else []) loop' log := by
  obtain ⟨loop1, log1, h1, j1⟩ := journalDrain_journals h ready iteration.received
  by_cases hdue : loop1.computer.nextTelemetryDeadline ≤ iteration.now
  case neg => exact ⟨loop1, log1, by simp [FlightLoop.journal, h1, hdue], j1⟩
  -- a cycle that is due comes to its end
  obtain ⟨computer2, frames, hs, -⟩ := step_total ready loop1.computer
    (.telemetry iteration.now iteration.readings) (j1.records.invariant hi)
  have hc : loop1.computer.telemetryCycle ready iteration.now iteration.readings =
    some (computer2, frames) := hs
  refine ⟨⟨computer2, loop1.streamDecoder⟩,
    log1 ++ [.cycled iteration.now iteration.readings frames],
    by simp [FlightLoop.journal, h1, hdue, FlightLoop.cycle, hc], j1.pending, ?_, ?_⟩
  · rw [callsOf_append]
    exact j1.decodes.trans (by simp [callsOf])
  · exact j1.records.append (.cycled hdue hc (.nil _))

/-- The loop runs for ever, and its journal records what it does. -/
lemma run_journals {loop : FlightLoop} {r : List UInt8} (h : Ready loop.streamDecoder r)
    (hi : Invariant loop.computer) (ready : Bool) (iterations : List Iteration) :
    ∃ loop' log, run (FlightLoop.journal ready) loop iterations = some (loop', log) ∧
      Journals ready loop (drained ready iterations) loop' log := by
  induction iterations generalizing loop r with
  | nil => exact ⟨loop, [], rfl, by rw [drained]; simpa using Journals.refl h⟩
  | cons iteration iterations ih =>
    obtain ⟨loop1, log1, h1, j1⟩ := journal_journals h hi ready iteration
    obtain ⟨r1, hr1⟩ := j1.pending
    obtain ⟨loop2, log2, h2, j2⟩ := ih hr1 (j1.records.invariant hi)
    refine ⟨loop2, log1 ++ log2, run_cons h1 h2, ?_⟩
    have e : drained ready (iteration :: iterations) =
        (if ready then iteration.received.map Received.byte else []) ++ drained ready iterations := by
      cases ready with
      | false => rfl
      | true => simp [drained]
    rw [e]
    exact j1.trans j2

end ApogeeFC.Flight
