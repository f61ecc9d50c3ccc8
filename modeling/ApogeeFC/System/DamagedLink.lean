import ApogeeFC.Stream.Damage
import ApogeeFC.System.Separation

/-!
# The link with damaged frames

Both ways, on lines that damage frames and add noise. What is damaged is lost and nothing comes of it
but, on the ground, complaints.

* Up, the flight computer obeys and answers the commands that arrive intact, in order, as if no other
  had been sent. The numbers missing among the acknowledgements are those of the lost commands
  (`damaged_commands_lost`).
* Down, the ground shows the messages that arrive intact, in order, and complains in the words of the
  reports of the pieces. It does not complain if and only if everything is intact
  (`damaged_downlink_shown`).
-/

namespace ApogeeFC.System
open Codec Flight Ground Mealy Scan ApogeeFC.Stream

/-- The scan of legal pieces finds the intact frames. -/
lemma scans_pieces {pieces : List Piece} (h : Legal false pieces) :
    ∃ ts r, Scans frameScanner (pieces.flatMap Piece.bytes) ts r ∧
      frames ts = pieces.filterMap Piece.intact? := by
  obtain ⟨c, calls, hpush, -, -, -, hintact⟩ := push_legal h
  obtain ⟨_, _, ts, r, hpush', -, hscan, hdec, -⟩ :=
    FrameStreamDecoder.push_scans (d := {}) (.empty rfl) (pieces.flatMap Piece.bytes)
  cases (push_of_counted hpush).symm.trans hpush'
  exact ⟨ts, r, hscan, hdec.symm.trans hintact⟩

/-- What arrives intact is some of what was sent. -/
lemma intact_sublist (pieces : List Piece) :
    (pieces.filterMap Piece.intact?).Sublist (pieces.filterMap Piece.sent?) := by
  induction pieces with
  | nil => exact .slnil
  | cons piece pieces ih =>
    rw [List.filterMap_cons, List.filterMap_cons]
    cases piece with
    | noise b => exact ih
    | frame f => exact ih.cons_cons f
    | damaged f g => exact ih.cons f

/-- What arrives intact of some messages. -/
lemma arrived_of_sent {α : Type*} {f : α → List UInt8} {sent : List α} {pieces : List Piece}
    (h : pieces.filterMap Piece.sent? = sent.map f) :
    ∃ arrived : List α, arrived.Sublist sent ∧ arrived.map f = pieces.filterMap Piece.intact? := by
  have hsub := intact_sublist pieces
  rw [h] at hsub
  obtain ⟨arrived, ha, e⟩ := List.sublist_map_iff.mp hsub
  exact ⟨arrived, ha, e.symm⟩

/-- The commands of the operator have different numbers, up to the wrap-around. -/
lemma eq_of_sequence {lines : List (List Char)} (h : (commands {} lines).length < 2 ^ 32)
    {c c' : CommandMessage} (hc : c ∈ commands {} lines) (hc' : c' ∈ commands {} lines)
    (hs : c.sequence = c'.sequence) : c = c' := by
  obtain ⟨i, hi, ei⟩ := List.getElem_of_mem hc
  obtain ⟨j, hj, ej⟩ := List.getElem_of_mem hc'
  subst ei; subst ej
  rw [sequence_commands {} lines i hi, sequence_commands {} lines j hj] at hs
  have hij := congrArg UInt32.toNat (UInt32.add_right_inj _ |>.mp hs)
  rw [UInt32.toNat_ofNat', UInt32.toNat_ofNat', Nat.mod_eq_of_lt (by omega),
    Nat.mod_eq_of_lt (by omega)] at hij
  subst hij
  rfl

/-- Damaged commands are lost, and only they. Whatever the operator types, if the frames of the commands
and some noise arrive in a legal stream, in any chunks and with telemetry cycles between them, then the
flight computer acknowledges the commands that arrive intact, in order, and the period in the end is the
last one that these set. Below the wrap-around of the numbers, a command has arrived if and only if its
number is acknowledged. -/
theorem damaged_commands_lost {lines : List (List Char)} {pieces : List Piece}
    (h : Legal false pieces)
    (hs : pieces.filterMap Piece.sent? = (commands {} lines).map commandBytes) (uptime : Int)
    {iterations : List Iteration} (hb : drained true iterations = pieces.flatMap Piece.bytes) :
    ∃ loop sent messages, ∃ arrived : List CommandMessage,
      run (FlightLoop.iterate true) { computer := .boot uptime } iterations = some (loop, sent) ∧
      Concatenates messages (sent.flatMap EncodedFrame.view) ∧
      arrived.Sublist (commands {} lines) ∧
      arrived.map commandBytes = pieces.filterMap Piece.intact? ∧
      acknowledgements messages = arrived.map acknowledgement ∧
      loop.computer.configuration.telemetryPeriodMs = (lastPeriod arrived).getD 1000 ∧
      ((commands {} lines).length < 2 ^ 32 → ∀ c ∈ commands {} lines,
        (c ∈ arrived ↔
          c.sequence ∈ (acknowledgements messages).map CommandAckMessage.sequence)) := by
  have hready : Ready ({ computer := .boot uptime } : FlightLoop).streamDecoder [] := .empty rfl
  have hi := invariant_boot uptime
  obtain ⟨arrived, hsub, hmap⟩ := arrived_of_sent hs
  have hnormal : ∀ c ∈ arrived, Normal c :=
    fun c hc => normal_commands {} lines c (hsub.subset hc)
  obtain ⟨loop, log, hjournal, hj⟩ := run_journals hready hi true iterations
  have hrun : run (FlightLoop.iterate true) { computer := .boot uptime } iterations =
      some (loop, sentBy log) := by
    rw [run_iterate_journal, hjournal]
    rfl
  obtain ⟨ts, r, hsteps, -, hscan, hcmd⟩ := hj.replays hready
  obtain ⟨us, r', hscan', hus⟩ := scans_pieces h
  rw [List.nil_append, hb] at hscan
  obtain ⟨e, -⟩ := hscan.det hscan'
  have harrived : commandsOf (stepsOf log) = arrived := by
    rw [hcmd, e, hus, ← hmap, filterMap_commandBytes hnormal]
  obtain ⟨messages, hm, hacks, -⟩ := run_messages hi
    (fun c hc => (hnormal c (harrived ▸ hc)).1) hsteps
  have hperiod := period_run hi hsteps
  rw [harrived] at hacks hperiod
  refine ⟨loop, sentBy log, messages, arrived, hrun, hm, hsub, hmap, hacks, hperiod, ?_⟩
  intro hlt c hc
  rw [hacks, List.map_map]
  constructor
  · intro ha
    exact List.mem_map.mpr ⟨c, ha, rfl⟩
  · intro ha
    obtain ⟨c', hc', e⟩ := List.mem_map.mp ha
    have ec := eq_of_sequence hlt hc (hsub.subset hc') e.symm
    rwa [ec]

/-- What arrives of a safe command after a bit of the command was flipped. -/
def damagedSafe : List UInt8 := (commandBytes ⟨2, .enterSafeMode, 0⟩).set 10 0x00

lemma damaged_damagedSafe : Damaged (commandBytes ⟨2, .enterSafeMode, 0⟩) damagedSafe where
  length := by decide +kernel
  synced := by decide +kernel
  claimed := by decide +kernel
  flipped := .inl (by decide +kernel)
  unsynced := by decide +kernel

/-- A safe command is lost between a ping and a period, in one chunk with a byte of noise. -/
theorem damaged_commands_lost_safe :
    ∃ loop sent messages,
      run (FlightLoop.iterate true) { computer := .boot 0 }
        [⟨(commandBytes ⟨1, .ping, 0⟩ ++ damagedSafe ++ [0xA5] ++
            commandBytes ⟨3, .setTelemetryPeriod, 2000⟩).map (⟨·, fun _ => 500⟩), 1500,
          ⟨7400, 2000, 300⟩⟩] = some (loop, sent) ∧
      Concatenates messages (sent.flatMap EncodedFrame.view) ∧
      acknowledgements messages = [⟨1, .ping, .accepted⟩, ⟨3, .setTelemetryPeriod, .accepted⟩] ∧
      loop.computer.configuration.telemetryPeriodMs = 2000 := by
  have hcommands : commands {} ["ping".toList, "safe".toList, "period 2000".toList] =
      [⟨1, .ping, 0⟩, ⟨2, .enterSafeMode, 0⟩, ⟨3, .setTelemetryPeriod, 2000⟩] := by decide +kernel
  have hping : (decode (commandBytes ⟨1, .ping, 0⟩)).ok := by decide +kernel
  have hsafe : (decode (commandBytes ⟨2, .enterSafeMode, 0⟩)).ok := by decide +kernel
  have hperiod : (decode (commandBytes ⟨3, .setTelemetryPeriod, 2000⟩)).ok := by decide +kernel
  have hnoise : (Piece.noise 0xA5).Legal
      (Piece.damaged (commandBytes ⟨2, .enterSafeMode, 0⟩) damagedSafe).trails := by
    rintro ⟨-, e⟩
    exact absurd e (by decide)
  obtain ⟨loop, sent, messages, arrived, hrun, hm, hsub, hmap, hacks, hp, -⟩ :=
    @damaged_commands_lost ["ping".toList, "safe".toList, "period 2000".toList]
      [.frame (commandBytes ⟨1, .ping, 0⟩),
        .damaged (commandBytes ⟨2, .enterSafeMode, 0⟩) damagedSafe, .noise 0xA5,
        .frame (commandBytes ⟨3, .setTelemetryPeriod, 2000⟩)]
      ⟨hping, ⟨hsafe, damaged_damagedSafe⟩, hnoise, hperiod, trivial⟩
      (by rw [hcommands]; rfl) 0
      [⟨(commandBytes ⟨1, .ping, 0⟩ ++ damagedSafe ++ [0xA5] ++
          commandBytes ⟨3, .setTelemetryPeriod, 2000⟩).map (⟨·, fun _ => 500⟩), 1500,
        ⟨7400, 2000, 300⟩⟩]
      (by simp [drained, Piece.bytes, Function.comp_def])
  have harrived : arrived = [⟨1, .ping, 0⟩, ⟨3, .setTelemetryPeriod, 2000⟩] := by
    rw [← filterMap_commandBytes fun c hc => normal_commands {} _ c (hsub.subset hc), hmap]
    decide +kernel
  subst harrived
  exact ⟨loop, sent, messages, hrun, hm, hacks, hp⟩

/-- What the ground writes of a report. -/
def complaint : Report → String
  | .frameDecoded _ _ => ""
  | .noiseDiscarded _ count => "Discarded " ++ toString count ++ " noise byte(s)\n"
  | .frameRejected _ _ _ => "Rejected malformed frame\n"
  | .truncated _ _ => "Truncated frame at end of stream\n"

/-- A message is taken for itself. -/
lemma message?_bytes {message : GroundMessage} (h : message.Encodes) :
    message? message.bytes = some message := by
  obtain ⟨frame, hd, ht⟩ := h.decode
  rw [message?, hd]
  cases message with
  | telemetry message =>
    obtain ⟨ht, hdec⟩ := ht
    simp only [ht, GroundMessage.bytes, hdec]
    rfl
  | acknowledgement message =>
    obtain ⟨ht, hdec⟩ := ht
    simp only [ht, GroundMessage.bytes, hdec]
    rfl

/-- What is shown of a call that delivers nothing but messages. -/
lemma shownOf_report {call : HandlerCall}
    (h : call.event.status = .frameDecoded →
      ∃ m : GroundMessage, m.Encodes ∧ call.event.frame.view = m.bytes) :
    (shownOf call.event).errors = complaint call.report ∧
      (shownOf call.event).malformedInput = call.report.frame?.isNone := by
  by_cases hs : call.event.status = .frameDecoded
  case pos =>
    obtain ⟨m, hm, hv⟩ := h hs
    rw [shownOf, handleEvent_message hm hs hv, HandlerCall.report, hs]
    exact ⟨rfl, rfl⟩
  case neg =>
    rw [shownOf, GroundStreamProcessor.handleEvent, if_pos hs, HandlerCall.report]
    cases hcase : call.event.status with
    | frameDecoded => exact absurd hcase hs
    | noiseDiscarded =>
      simp [GroundStreamProcessor.reportStreamError, hcase, GroundStreamProcessor.complain,
        GroundStreamProcessor.shown, complaint, Report.frame?]
    | frameRejected =>
      simp [GroundStreamProcessor.reportStreamError, hcase, GroundStreamProcessor.complain,
        GroundStreamProcessor.shown, complaint, Report.frame?]
    | truncated =>
      simp [GroundStreamProcessor.reportStreamError, hcase, GroundStreamProcessor.complain,
        GroundStreamProcessor.shown, complaint, Report.frame?]

/-- What is shown of calls that deliver nothing but messages. -/
lemma shownBy_reports {calls : List HandlerCall}
    (h : ∀ f ∈ decodedFrames calls, ∃ m : GroundMessage, m.Encodes ∧ f = m.bytes) :
    (shownBy calls).errors = String.join ((calls.map HandlerCall.report).map complaint) ∧
      (shownBy calls).malformedInput =
        (calls.map HandlerCall.report).any fun report => report.frame?.isNone := by
  induction calls with
  | nil => exact ⟨rfl, rfl⟩
  | cons call calls ih =>
    have hstep : shownBy (call :: calls) =
        ((({} : GroundStreamProcessor).add (shownOf call.event)).add (shownBy calls)).shown := by
      rw [← handleEvent_eq, ← handleCalls_eq]
      rfl
    have hcall : call.event.status = .frameDecoded →
        ∃ m : GroundMessage, m.Encodes ∧ call.event.frame.view = m.bytes := by
      intro hs
      apply h
      rw [decodedFrames_cons hs]
      exact List.mem_cons_self
    have hcalls : ∀ f ∈ decodedFrames calls, ∃ m : GroundMessage, m.Encodes ∧ f = m.bytes := by
      intro f hf
      apply h
      by_cases hs : call.event.status = .frameDecoded
      · rw [decodedFrames_cons hs]
        exact List.mem_cons_of_mem _ hf
      · rwa [decodedFrames_skip hs]
    obtain ⟨e1, e2⟩ := shownOf_report hcall
    obtain ⟨e3, e4⟩ := ih hcalls
    rw [hstep]
    simp [GroundStreamProcessor.shown, GroundStreamProcessor.add, e1, e2, e3, e4]

/-- Calls that deliver the frames of messages show these messages, and their reports. -/
lemma shownBy_arrived {calls : List HandlerCall} {arrived : List GroundMessage}
    (hm : ∀ m ∈ arrived, m.Encodes) (hf : decodedFrames calls = arrived.map GroundMessage.bytes) :
    shownBy calls =
      { output := transcript arrived
        errors := String.join ((calls.map HandlerCall.report).map complaint)
        decodedMessages := arrived.length
        malformedInput :=
          (calls.map HandlerCall.report).any fun report => report.frame?.isNone } := by
  have hframes : ∀ f ∈ decodedFrames calls, ∃ m : GroundMessage, m.Encodes ∧ f = m.bytes := by
    rw [hf, List.forall_mem_map]
    exact fun m hmem => ⟨m, hm m hmem, rfl⟩
  have hok : ∀ f ∈ decodedFrames calls, (decode f).ok := by
    intro f hf
    obtain ⟨m, hm, e⟩ := hframes f hf
    subst e
    exact accepts_iff.mp hm.accepts
  have htaken : (decodedFrames calls).filterMap message? = arrived := by
    rw [hf, List.filterMap_map]
    refine (List.filterMap_congr fun m hmem => ?_).trans List.filterMap_some
    exact message?_bytes (hm m hmem)
  obtain ⟨eo, ed⟩ := shownBy_calls hok
  obtain ⟨ee, em⟩ := shownBy_reports hframes
  rw [htaken] at eo ed
  rw [← eo, ← ed, ← ee, ← em]

/-- The reports of pieces, and an `A5` that is left in the end, give away everything that is not an
intact frame. -/
lemma reports_frames (k : Nat) (pending : Bool) (pieces : List Piece) :
    ((reports k pending pieces).any (fun r => r.2.frame?.isNone) || trailing pending pieces) =
      (pending || pieces.any fun piece => piece.intact?.isNone) := by
  induction pieces generalizing k pending with
  | nil => simp [reports, trailing]
  | cons piece pieces ih =>
    have hpiece : ((piece.reports pending).any (fun r => r.2.frame?.isNone) || piece.trails) =
        (pending || piece.intact?.isNone) := by
      cases piece with
      | noise b =>
        by_cases hb : b = syncFirst
        · cases pending with
          | false => simp [Piece.reports, Piece.trails, Piece.intact?, hb]
          | true => simp [Piece.reports, Piece.trails, Piece.intact?, hb]
        · simp [Piece.reports, Piece.trails, Piece.intact?, hb, Report.frame?]
      | frame f =>
        cases pending with
        | false => simp [Piece.reports, Piece.trails, Piece.intact?, Report.frame?]
        | true => simp [Piece.reports, Piece.trails, Piece.intact?, Report.frame?]
      | damaged f g => simp [Piece.reports, Piece.intact?, Report.frame?]
    have hshift : ((piece.reports pending).map fun r => (k + r.1, r.2)).any
        (fun r => r.2.frame?.isNone) = (piece.reports pending).any fun r => r.2.frame?.isNone := by
      rw [List.any_map]
      rfl
    rw [reports, List.any_append, hshift, trailing, Bool.or_assoc, ih, ← Bool.or_assoc, hpiece,
      List.any_cons, Bool.or_assoc]

/-- The end of the stream shows an `A5` that is left. -/
lemma finish_held {processor : GroundStreamProcessor} {pending : Bool}
    (h : Ready processor.decoder (held pending)) :
    ∃ processor', processor.finish = some processor' ∧ processor'.output = processor.output ∧
      processor'.decodedMessages = processor.decodedMessages ∧
      processor'.errors = processor.errors ++
        (if pending then "Truncated frame at end of stream\n" else "") ∧
      processor'.malformedInput = (processor.malformedInput || pending) := by
  obtain ⟨d, calls, hfin, -, hreps⟩ := finish_drops h.toHolds
  have hfinish := finish_eq processor
  rw [hfin] at hfinish
  obtain ⟨ho, hd⟩ := finish_shows hfinish
  have hnone : ∀ f ∈ decodedFrames calls, ∃ m : GroundMessage, m.Encodes ∧ f = m.bytes := by
    rw [decodedFrames_reports, hreps]
    cases pending with
    | false => simp [held]
    | true => simp [held, delivered, Report.frame?]
  obtain ⟨he, hmal⟩ := shownBy_reports hnone
  refine ⟨_, hfinish, ho, hd, ?_, ?_⟩
  · simp only [GroundStreamProcessor.add, he, hreps]
    cases pending with
    | false => rfl
    | true => simp [held, complaint]
  · rw [GroundStreamProcessor.malformedInput_add, hmal, hreps]
    cases pending with
    | false => rfl
    | true => rfl

/-- What is damaged on the way down is not shown. If the frames of some messages and some noise arrive
in a legal stream, in any chunks, then the output is the transcript of the messages that arrive intact.
The complaints are those of the reports of the pieces, and one about an `A5` that is left in the end;
the flag stays clear if and only if every piece is an intact frame. -/
theorem damaged_downlink_shown {messages : List GroundMessage} (hm : ∀ m ∈ messages, m.Encodes)
    {pieces : List Piece} (h : Legal false pieces)
    (hs : pieces.filterMap Piece.sent? = messages.map GroundMessage.bytes)
    {chunks : List (List UInt8)} (hc : chunks.flatten = pieces.flatMap Piece.bytes) :
    ∃ processor, ∃ arrived : List GroundMessage,
      GroundStreamProcessor.session {} chunks = some processor ∧
      arrived.Sublist messages ∧
      arrived.map GroundMessage.bytes = pieces.filterMap Piece.intact? ∧
      processor.output = transcript arrived ∧ processor.decodedMessages = arrived.length ∧
      processor.errors = String.join ((reports 0 false pieces).map fun r => complaint r.2) ++
        (if trailing false pieces then "Truncated frame at end of stream\n" else "") ∧
      (processor.malformedInput = false ↔ ∀ piece ∈ pieces, piece.intact?.isSome) := by
  obtain ⟨arrived, hsub, hmap⟩ := arrived_of_sent hs
  have harrived : ∀ m ∈ arrived, m.Encodes := fun m hmem => hm m (hsub.subset hmem)
  obtain ⟨c, counted, hpush, -, hready, hreps, hdec⟩ := push_legal h
  have hpush' := push_of_counted hpush
  generalize counted.map StampedCall.call = calls at hpush' hreps hdec
  rw [← hmap] at hdec
  rw [← hc] at hpush'
  have hsession := session_eq hpush'
  have hshown := shownBy_arrived harrived hdec
  rw [hreps, List.map_map, List.any_map] at hshown
  obtain ⟨processor, hfin, ho, hd, he, hmal⟩ :=
    @finish_held (GroundStreamProcessor.add { decoder := c.decoder } (shownBy calls))
      (trailing false pieces) hready
  rw [hshown] at ho hd he hmal
  refine ⟨processor, arrived, hsession.trans hfin, hsub, hmap, ?_, ?_, ?_, ?_⟩
  · rw [ho]
    exact String.empty_append
  · rw [hd]
    exact Nat.zero_add _
  · rw [he]
    exact congrArg (· ++ _) String.empty_append
  · have hflag : processor.malformedInput = pieces.any fun piece => piece.intact?.isNone :=
      hmal.trans (reports_frames 0 false pieces)
    rw [hflag, List.any_eq_false]
    simp [Option.isSome_iff_ne_none]

/-- What arrives of the answer to a safe command after a bit of its status was flipped. -/
def damagedAnswer : List UInt8 :=
  (GroundMessage.acknowledgement ⟨2, .enterSafeMode, .accepted⟩).bytes.set 11 0x01

lemma damaged_damagedAnswer : Damaged
    (GroundMessage.acknowledgement ⟨2, .enterSafeMode, .accepted⟩).bytes damagedAnswer where
  length := by decide +kernel
  synced := by decide +kernel
  claimed := by decide +kernel
  flipped := .inl (by decide +kernel)
  unsynced := by decide +kernel

/-- The answer to a ping arrives, the answer to a safe command does not. -/
theorem damaged_downlink_shown_safe :
    ∃ processor, GroundStreamProcessor.session {}
        [(GroundMessage.acknowledgement ⟨1, .ping, .accepted⟩).bytes ++ damagedAnswer] =
        some processor ∧
      processor.decodedMessages = 1 ∧ processor.errors = "Rejected malformed frame\n" ∧
      processor.malformedInput = true := by
  have hping : (decode (GroundMessage.acknowledgement ⟨1, .ping, .accepted⟩).bytes).ok := by
    decide +kernel
  have hsafe : (decode (GroundMessage.acknowledgement ⟨2, .enterSafeMode, .accepted⟩).bytes).ok := by
    decide +kernel
  have hencodes : ∀ m ∈ [GroundMessage.acknowledgement ⟨1, .ping, .accepted⟩,
      .acknowledgement ⟨2, .enterSafeMode, .accepted⟩], m.Encodes := by
    have hping : (encodeCommandAck ⟨1, .ping, .accepted⟩).ok := by decide +kernel
    have hsafe : (encodeCommandAck ⟨2, .enterSafeMode, .accepted⟩).ok := by decide +kernel
    simp [GroundMessage.Encodes, hping, hsafe]
  obtain ⟨processor, arrived, hsession, -, hmap, -, hdecoded, herrors, hflag⟩ :=
    @damaged_downlink_shown _ hencodes
      [.frame (GroundMessage.acknowledgement ⟨1, .ping, .accepted⟩).bytes,
        .damaged (GroundMessage.acknowledgement ⟨2, .enterSafeMode, .accepted⟩).bytes damagedAnswer]
      ⟨hping, ⟨hsafe, damaged_damagedAnswer⟩, trivial⟩ rfl
      [(GroundMessage.acknowledgement ⟨1, .ping, .accepted⟩).bytes ++ damagedAnswer]
      (by simp [Piece.bytes])
  have hlast : damagedAnswer.getLast? ≠ some syncFirst := by decide +kernel
  refine ⟨processor, hsession, ?_, ?_, ?_⟩
  · rw [hdecoded]
    exact (List.length_map GroundMessage.bytes).symm.trans (congrArg List.length hmap)
  · rw [herrors]
    simp [reports, Piece.reports, Piece.trails, trailing, complaint, hlast]
  · rw [← Bool.not_eq_false, hflag]
    simp [Piece.intact?]

end ApogeeFC.System
