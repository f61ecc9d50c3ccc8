import ApogeeFC.Flight.Journal
import ApogeeFC.System.LinkSafety

/-!
# Nothing gets lost under way

A decoder that waits has no whole frame buffered. So when no bytes are under way, both queues of the
exchange are empty (`carries_nothing`), and every command has been answered (`link_settled`). From every
state in which the client polls the link gets there without the operator (`link_drains`).
-/

namespace ApogeeFC.System
open Codec Flight Ground Mealy Exchange

/-! ## When nothing is under way -/

/-- A decoder has no whole frame buffered. -/
lemma none_buffered {β : Type*} {f : β → List UInt8} {xs : List β} {d : Stream.FrameStreamDecoder}
    (h : Stream.Ready d (xs.flatMap f)) (hf : ∀ x ∈ xs, Stream.frameScanner.Accepts (f x)) :
    xs = [] := by
  cases xs with
  | nil => rfl
  | cons x xs =>
    have hw : Stream.frameScanner.verdict (f x ++ xs.flatMap f) = .wait := h.waits
    rw [(hf x (by simp)).verdict_append] at hw
    cases hw

/-- If nothing is under way, the queues are empty. -/
lemma carries_nothing {link : Link} {exchange} (h : Carries link exchange)
    (hr : Running link.client) (hup : link.uplink = []) (hdown : link.downlink = [])
    (hunsent : link.client.phase.unsent = []) :
    exchange.requests = [] ∧ exchange.replies = [] := by
  obtain ⟨r, rest, hready, e, hrest⟩ := h.up
  obtain ⟨r₁, hc, hground⟩ := h.down
  constructor
  · obtain hrest | hexited := hrest
    · rw [hup, hrest, hunsent, List.append_nil, List.append_nil] at e
      subst e
      exact none_buffered hready fun c hc => accepts_commandBytes (h.normal c hc)
    · exact absurd hexited (hr 1)
  · have hready₁ := (hground hr).1
    obtain ⟨henc, e⟩ := hc
    rw [hdown, List.append_nil] at e
    subst e
    exact none_buffered hready₁ fun m hm => (henc m hm).accepts

/-- If nothing is under way, every command is answered. -/
lemma carries_settled {uptime : Int} {lines : List (List Char)} {link : Link} {moves exchange}
    (hmoves : Moves flightServer { server := .boot uptime } moves exchange)
    (hcarries : Carries link exchange) (hsub : submitted moves = commands {} lines)
    (hr : Running link.client) (hup : link.uplink = []) (hdown : link.downlink = [])
    (hunsent : link.client.phase.unsent = []) :
    acknowledgements (delivered moves) = (commands {} lines).mapIdx (fun k c =>
      { sequence := .ofNat (k + 1)
        command := c.command
        status :=
          if c.command = .setTelemetryPeriod ∧ ¬ InRange c.periodMs then .invalidArgument
          else .accepted }) ∧
    link.loop.computer.configuration.telemetryPeriodMs =
      (lastPeriod (commands {} lines)).getD 1000 := by
  obtain ⟨hnone, hnone'⟩ := carries_nothing hcarries hr hup hdown hunsent
  obtain ⟨answered, hrequests, hacks, hperiod⟩ := moves_answer hmoves
  rw [hnone, List.append_nil, hsub] at hrequests
  rw [hnone', List.append_nil, ← hrequests] at hacks
  rw [hcarries.server, ← hrequests] at hperiod
  exact ⟨hacks.trans (acknowledgement_commands lines), hperiod⟩

/-- When nothing is under way, everything is answered. In every state in which no bytes are under way and
the client has nothing left to send, every command typed has been answered, in order and once, every
answer has been shown, and the period is the last one in range. -/
theorem link_settled {strerror : Errno → String} {socketFd : Nat} {uptime : Int}
    {events : List LinkEvent} {link : Link}
    (h : events.foldlM (Link.step strerror) (.start socketFd uptime) = some link)
    (hr : Running link.client) (hup : link.uplink = []) (hdown : link.downlink = [])
    (hunsent : link.client.phase.unsent = []) :
    ∃ messages, link.client.processor.output = banner ++ transcript messages ∧
      acknowledgements messages = (commands {} (typedLines events)).mapIdx (fun k c =>
        { sequence := .ofNat (k + 1)
          command := c.command
          status :=
            if c.command = .setTelemetryPeriod ∧ ¬ InRange c.periodMs then .invalidArgument
            else .accepted }) ∧
      link.loop.computer.configuration.telemetryPeriodMs =
        (lastPeriod (commands {} (typedLines events))).getD 1000 := by
  obtain ⟨moves, exchange, -, hmoves, hcarries, hsub, -, -, hout⟩ :=
    run_simulates (carries_start socketFd uptime) h
  obtain ⟨hacks, hperiod⟩ := carries_settled hmoves hcarries hsub hr hup hdown hunsent
  exact ⟨delivered moves, hout, hacks, hperiod⟩

theorem link_settled_ping :
    ∃ link messages, pingEvents.foldlM (Link.step fun _ => "") (.start 3 0) = some link ∧
      link.client.processor.output = banner ++ transcript messages ∧
      acknowledgements messages = [⟨1, .ping, .accepted⟩] := by
  obtain ⟨link, hlink, hp, hup, hdown⟩ := run_pingEvents
  obtain ⟨messages, hout, hacks, -⟩ :=
    link_settled hlink (running_polling hp) hup hdown (by rw [hp]; rfl)
  exact ⟨link, messages, hlink, hout, hacks⟩

/-! ## Progress -/

/-- What the clock and the sensors show in a round: the time and the readings of a telemetry cycle, and
the time in the `j`-th call of the handler for the `k`-th byte. -/
structure Conditions where
  now : Int
  readings : SensorReadings
  uptime : Nat → Nat → Int

/-- The round takes place under these conditions. -/
def Conditions.Hold (conditions : Conditions) (iteration : Iteration) : Prop :=
  iteration.now = conditions.now ∧ iteration.readings = conditions.readings ∧
    ∀ k received, iteration.received[k]? = some received → received.uptime = conditions.uptime k

/-- The round in which the loop receives the bytes. -/
def Conditions.round (conditions : Conditions) (bytes : List UInt8) : Iteration where
  received := bytes.mapIdx fun k byte => ⟨byte, conditions.uptime k⟩
  now := conditions.now
  readings := conditions.readings

lemma Conditions.bytes_round (conditions : Conditions) (bytes : List UInt8) :
    (conditions.round bytes).received.map Received.byte = bytes := by
  apply List.ext_getElem?
  intro k
  rw [Conditions.round, List.getElem?_map, List.getElem?_mapIdx, Option.map_map]
  exact Option.map_id'

lemma Conditions.hold_round (conditions : Conditions) (bytes : List UInt8) :
    conditions.Hold (conditions.round bytes) := by
  refine ⟨rfl, rfl, fun k received hk => ?_⟩
  rw [Conditions.round, List.getElem?_mapIdx] at hk
  obtain ⟨byte, -, e⟩ := Option.map_eq_some_iff.mp hk
  rw [← e]

/-- The loop can always receive all that is under way to it, under any conditions. -/
lemma uplink_drains (strerror : Errno → String) {link : Link} {exchange} (h : Carries link exchange)
    (conditions : Conditions) :
    ∃ link', link.step strerror (.flight (conditions.round link.uplink)) = some link' ∧
      link'.client = link.client ∧ link'.uplink = [] := by
  obtain ⟨r, _, hready, -⟩ := h.up
  obtain ⟨loop, log, hjournal, -⟩ := journal_journals hready h.invariant true
    (conditions.round link.uplink)
  have hdrop : link.uplink.dropPrefix? link.uplink = some [] :=
    List.dropPrefix?_eq_some_iff.mpr ⟨link.uplink, (List.append_nil _).symm, beq_self_eq_true _⟩
  refine ⟨{ link with
      loop
      uplink := []
      downlink := link.downlink ++ (sentBy log).flatMap EncodedFrame.view }, ?_, rfl, rfl⟩
  rw [Link.step, conditions.bytes_round, hdrop, iterate_journal, hjournal]
  rfl

/-- A client that polls can always receive the next bytes that are under way to it. -/
lemma downlink_receives (strerror : Errno → String) {link : Link} {exchange}
    (h : Carries link exchange) (hp : link.client.phase = .polling) {chunk rest : List UInt8}
    (hne : chunk ≠ []) (e : link.downlink = chunk ++ rest) :
    ∃ link', (receives chunk).foldlM (Link.step strerror) link = some link' ∧
      link'.client.phase = .polling ∧ link'.uplink = link.uplink ∧ link'.downlink = rest := by
  obtain ⟨r, -, hground⟩ := h.down
  obtain ⟨hready, -⟩ := hground (running_polling hp)
  obtain ⟨⟨socketFd, processor, sequencer, errno, phase⟩, loop, uplink, downlink⟩ := link
  dsimp only at hp e hready
  subst hp; subst e
  obtain ⟨d', calls, -, -, hpush, -⟩ := Stream.FrameStreamDecoder.push_scans hready chunk
  have hfeed : processor.feed chunk = some ({ processor with decoder := d' }.add (shownBy calls)) := by
    rw [feed_eq, hpush]
    rfl
  have hdrop : (chunk ++ rest).dropPrefix? chunk = some rest :=
    List.dropPrefix?_append_of_beq rest (beq_self_eq_true chunk)
  cases chunk with
  | nil => exact absurd rfl hne
  | cons byte bytes =>
    have hnone : (receivedChunks [.poll (.ok ({ pollIn := true }, {}))]).flatten = [] := rfl
    have hchunks : (receivedChunks [.recv (.ok (byte :: bytes))]).flatten = byte :: bytes :=
      List.append_nil _
    have hpoll : LiveClient.step strerror ⟨socketFd, processor, sequencer, errno, .polling⟩
        (.poll (.ok ({ pollIn := true }, {}))) =
        some (⟨socketFd, processor, sequencer, errno, .receiving { pollIn := true } {}⟩, []) := rfl
    have hrecv : LiveClient.step strerror
        ⟨socketFd, processor, sequencer, errno, .receiving { pollIn := true } {}⟩
        (.recv (.ok (byte :: bytes))) =
        some (⟨socketFd, { processor with decoder := d' }.add (shownBy calls), sequencer, errno,
          .polling⟩, []) := by
      dsimp only [LiveClient.step]
      rw [hfeed]
      rfl
    refine ⟨⟨⟨socketFd, { processor with decoder := d' }.add (shownBy calls), sequencer, errno,
      .polling⟩, loop, uplink, rest⟩, ?_, rfl, rfl, rfl⟩
    simp only [receives, List.foldlM_cons, List.foldlM_nil, Link.step, hnone, hchunks, List.dropPrefix?_nil,
      hdrop, hpoll, hrecv, Option.bind_eq_bind, Option.bind_some]
    simp [sentBytes]

/-- A client that polls can receive all that is under way to it, in the chunks that its buffer allows. -/
lemma downlink_drains (strerror : Errno → String) {link : Link} {exchange}
    (h : Carries link exchange) (hp : link.client.phase = .polling) :
    ∃ events link', rounds events = [] ∧ typedLines events = [] ∧
      events.foldlM (Link.step strerror) link = some link' ∧
      link'.client.phase = .polling ∧ link'.uplink = link.uplink ∧ link'.downlink = [] := by
  induction hn : link.downlink.length using Nat.strong_induction_on generalizing link exchange with
  | _ n ih =>
    by_cases hnone : link.downlink = []
    case pos => exact ⟨[], link, rfl, rfl, rfl, hp, rfl, hnone⟩
    have hpos := List.length_pos_iff.mpr hnone
    have hchunk : link.downlink.take ioBufferSize ≠ [] := by
      intro e
      have hl := congrArg List.length e
      rw [List.length_take, List.length_nil] at hl
      simp only [ioBufferSize] at hl
      omega
    obtain ⟨link₁, hrun, hp₁, hup₁, hdown₁⟩ := downlink_receives strerror h hp hchunk
      (List.take_append_drop ioBufferSize link.downlink).symm
    obtain ⟨_, exchange₁, _, -, h₁, -⟩ := run_simulates h hrun
    have hlt : link₁.downlink.length < n := by
      rw [hdown₁, List.length_drop, ← hn]
      simp only [ioBufferSize]
      omega
    obtain ⟨events, link₂, hrounds, hlines, hrun₂, hp₂, hup₂, hdown₂⟩ := ih _ hlt h₁ hp₁ rfl
    refine ⟨receives (link.downlink.take ioBufferSize) ++ events, link₂, ?_, ?_, ?_, hp₂,
      hup₂.trans hup₁, hdown₂⟩
    · exact hrounds
    · exact hlines
    · rw [List.foldlM_append, hrun]
      exact hrun₂

/-- The link never gets stuck. From every state it reaches in which the client polls, and whatever the
clock and the sensors show from there on, it gets without the operator to one in which nothing is under
way. One round of the flight loop is enough for that. In the end every command typed has been answered,
in order and once, and every answer has been shown. -/
theorem link_drains {strerror : Errno → String} {socketFd : Nat} {uptime : Int}
    {events : List LinkEvent} {link : Link} (conditions : Conditions)
    (h : events.foldlM (Link.step strerror) (.start socketFd uptime) = some link)
    (hp : link.client.phase = .polling) :
    ∃ more iteration link' messages, rounds more = [iteration] ∧ conditions.Hold iteration ∧
      typedLines more = [] ∧
      more.foldlM (Link.step strerror) link = some link' ∧
      link'.client.phase = .polling ∧ link'.uplink = [] ∧ link'.downlink = [] ∧
      link'.client.processor.output = banner ++ transcript messages ∧
      acknowledgements messages = (commands {} (typedLines events)).mapIdx (fun k c =>
        { sequence := .ofNat (k + 1)
          command := c.command
          status :=
            if c.command = .setTelemetryPeriod ∧ ¬ InRange c.periodMs then .invalidArgument
            else .accepted }) ∧
      link'.loop.computer.configuration.telemetryPeriodMs =
        (lastPeriod (commands {} (typedLines events))).getD 1000 := by
  obtain ⟨_, _, _, -, hcarries, -⟩ := run_simulates (carries_start socketFd uptime) h
  obtain ⟨link₁, hflight, hclient, hup⟩ := uplink_drains strerror hcarries conditions
  obtain ⟨_, _, -, -, hcarries₁, -⟩ := flight_simulates hcarries hflight
  rw [← hclient] at hp
  obtain ⟨more, link₂, hrounds, hlines, hrun, hp₂, hup₂, hdown₂⟩ :=
    downlink_drains strerror hcarries₁ hp
  -- the whole run, from the start
  have hmore : (.flight (conditions.round link.uplink) :: more).foldlM (Link.step strerror) link =
      some link₂ := by
    rw [List.foldlM_cons, hflight]
    exact hrun
  have hall : (events ++ .flight (conditions.round link.uplink) :: more).foldlM
      (Link.step strerror) (.start socketFd uptime) = some link₂ := by
    rw [List.foldlM_append, h]
    exact hmore
  obtain ⟨moves, exchange, -, hmoves, hcarries₂, hsub, -, -, hout⟩ :=
    run_simulates (carries_start socketFd uptime) hall
  have htyped : typedLines (events ++ .flight (conditions.round link.uplink) :: more) =
      typedLines events := by
    rw [typedLines_append]
    exact (congrArg (typedLines events ++ ·) hlines).trans (List.append_nil _)
  rw [htyped] at hsub
  obtain ⟨hacks, hperiod⟩ := carries_settled hmoves hcarries₂ hsub (running_polling hp₂)
    (hup₂.trans hup) hdown₂ (by rw [hp₂]; rfl)
  exact ⟨.flight (conditions.round link.uplink) :: more, conditions.round link.uplink, link₂,
    delivered moves, congrArg (conditions.round link.uplink :: ·) hrounds,
    conditions.hold_round _, hlines, hmore, hp₂, hup₂.trans hup, hdown₂, hout, hacks, hperiod⟩

theorem link_drains_ping :
    ∃ link more iteration messages, ∃ link' : Link,
      pingEvents.foldlM (Link.step fun _ => "") (.start 3 0) = some link ∧
      rounds more = [iteration] ∧ iteration.now = 2000 ∧ iteration.readings = ⟨7400, 2200, 320⟩ ∧
      List.foldlM (Link.step fun _ => "") link more = some link' ∧
      link'.client.processor.output = banner ++ transcript messages ∧
      acknowledgements messages = [⟨1, .ping, .accepted⟩] := by
  obtain ⟨link, hlink, hp, -⟩ := run_pingEvents
  obtain ⟨more, iteration, link', messages, hrounds, hhold, -, hmore, -, -, -, hout, hacks, -⟩ :=
    link_drains ⟨2000, ⟨7400, 2200, 320⟩, fun _ _ => 1990⟩ hlink hp
  exact ⟨link, more, iteration, messages, link', hlink, hrounds, hhold.1, hhold.2.1, hmore, hout,
    hacks⟩

end ApogeeFC.System
