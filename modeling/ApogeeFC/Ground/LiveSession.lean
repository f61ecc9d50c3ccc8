import ApogeeFC.Ground.LiveStep
import ApogeeFC.Ground.Shown

/-!
# Sessions of the live client

What a session of `run_live` amounts to, whatever the system calls return and however often they are
interrupted or only do a part of what they were asked for. It holds one socket at a time and closes it
(`session_descriptors`). What it sends are the commands of the typed lines, in order and without a gap
(`session_uplink`). What it shows of the received bytes is what `run_offline` shows of a file with these
bytes (`session_offline`).
-/

namespace ApogeeFC.Ground
open Codec Mealy ApogeeFC.Stream

/-- The lines that were typed. -/
def typed (replies : List LiveReply) : List (List Char) :=
  replies.filterMap fun
    | .getline line => line
    | _ => none

/-- The chunks of bytes that were received. -/
def receivedChunks (replies : List LiveReply) : List (List UInt8) :=
  replies.filterMap fun
    | .recv (.ok (byte :: bytes)) => some (byte :: bytes)
    | _ => none

/-- What was written to sockets. -/
def sentBytes (actions : List SocketAction) : List UInt8 :=
  actions.flatMap fun
    | .sent _ bytes => bytes
    | _ => []

/-- What is left of the command that is being sent. -/
def LivePhase.unsent : LivePhase → List UInt8
  | .sending _ frame offset => frame.view.drop offset
  | .waiting _ frame offset => frame.view.drop offset
  | _ => []

lemma typed_silent {reply : LiveReply} (h : reply.Silent) (replies : List LiveReply) :
    typed (reply :: replies) = typed replies := by
  cases reply with
  | getline line =>
    cases line with
    | none => rfl
    | some line => cases h
  | _ => rfl

lemma receivedChunks_silent {reply : LiveReply} (h : reply.Silent) (replies : List LiveReply) :
    receivedChunks (reply :: replies) = receivedChunks replies := by
  cases reply with
  | recv received =>
    cases received with
    | error _ => rfl
    | ok bytes =>
      cases bytes with
      | nil => rfl
      | cons byte bytes => cases h
  | _ => rfl

lemma receivedChunks_recv {bytes : List UInt8} (h : bytes ≠ []) (replies : List LiveReply) :
    receivedChunks (.recv (.ok bytes) :: replies) = bytes :: receivedChunks replies := by
  cases bytes with
  | nil => exact absurd rfl h
  | cons byte bytes => rfl

lemma LivePhase.Idle.unsent {phase : LivePhase} (h : phase.Idle) : phase.unsent = [] := by
  cases phase with
  | sending _ _ _ => cases h
  | waiting _ _ _ => cases h
  | _ => rfl

lemma LivePhase.Sends.unsent {phase : LivePhase} {frame offset} (h : phase.Sends frame offset) :
    phase.unsent = frame.view.drop offset := by
  cases phase with
  | sending _ _ _ =>
    obtain ⟨e1, e2⟩ := h
    subst e1; subst e2
    rfl
  | waiting _ _ _ =>
    obtain ⟨e1, e2⟩ := h
    subst e1; subst e2
    rfl
  | _ => cases h

lemma LivePhase.Idle.sound {phase : LivePhase} (h : phase.Idle) : phase.Sound := by
  intro frame offset hs
  cases phase with
  | sending _ _ _ => cases h
  | waiting _ _ _ => cases h
  | _ => cases hs

lemma LivePhase.Sends.sound {phase : LivePhase} {frame offset} (h : phase.Sends frame offset)
    (hlt : offset < frame.size) : phase.Sound := by
  intro frame' offset' h'
  cases phase with
  | sending _ _ _ =>
    obtain ⟨e1, e2⟩ := h
    obtain ⟨e1', e2'⟩ := h'
    subst e1; subst e2; subst e1'; subst e2'
    exact hlt
  | waiting _ _ _ =>
    obtain ⟨e1, e2⟩ := h
    obtain ⟨e1', e2'⟩ := h'
    subst e1; subst e2; subst e1'; subst e2'
    exact hlt
  | _ => cases h

lemma sound_polling : LivePhase.polling.Sound := by
  intro frame offset h
  cases h

lemma sound_exited (status : Nat) : (LivePhase.exited status).Sound := by
  intro frame offset h
  cases h

lemma Settles.sound {client client' : LiveClient} {actions}
    (h : Settles client (client', actions)) : client'.phase.Sound := by
  cases h with
  | waits hi => exact hi.sound
  | returns => exact sound_exited _
  | hangs _ => exact sound_exited _

/-- A frame is only sent while some of it is left. -/
lemma Steps.sound {client client' : LiveClient} {reply actions} (hs : client.phase.Sound)
    (h : Steps client reply (client', actions)) : client'.phase.Sound := by
  cases h with
  | settles _ _ hset => exact hset.sound
  | feeds _ _ _ hset => exact hset.sound
  | quits _ _ => exact sound_exited _
  | ignores _ _ => exact sound_polling
  | begins _ hn _ hp => exact hp.sound (size_encodeCommand hn)
  | sends _ _ hp hlt => exact hp.sound hlt
  | completes _ _ _ hset => exact hset.sound
  | retries hp _ hp' => exact hp'.sound (hs _ _ hp)
  | fails _ _ => exact sound_exited _

/-- After it has returned, the program makes no calls. -/
lemma run_exited {strerror : Errno → String} {client client' : LiveClient} {status replies actions}
    (hp : client.phase = .exited status)
    (h : run (LiveClient.step strerror) client replies = some (client', actions)) :
    replies = [] ∧ client' = client ∧ actions = [] := by
  cases replies with
  | nil =>
    cases h
    exact ⟨rfl, rfl, rfl⟩
  | cons reply replies =>
    obtain ⟨client₁, _, _, hs, -, -⟩ := run_cons_inv h
    unfold LiveClient.step at hs
    rw [hp] at hs
    cases reply <;> cases hs

/-! ## Sockets -/

/-- One socket is held at a time, and only that one is written to and closed. -/
def hold : Option Nat → SocketAction → Option (Option Nat)
  | none, .opened descriptor => some (some descriptor)
  | some held, .sent descriptor _ => if descriptor = held then some (some held) else none
  | some held, .closed descriptor => if descriptor = held then some none else none
  | _, _ => none

/-- The socket that the client holds. -/
def LiveClient.held (client : LiveClient) : Option Nat :=
  match client.phase with
  | .exited _ => none
  | _ => some client.socketFd

lemma held_idle {client : LiveClient} (h : client.phase.Idle) : client.held = some client.socketFd := by
  unfold LiveClient.held
  generalize client.phase = phase at h
  cases phase with
  | exited _ => cases h
  | _ => rfl

lemma held_sends {client : LiveClient} {frame offset} (h : client.phase.Sends frame offset) :
    client.held = some client.socketFd := by
  unfold LiveClient.held
  generalize client.phase = phase at h
  cases phase with
  | exited _ => cases h
  | _ => rfl

lemma Settles.held {client client' : LiveClient} {actions}
    (h : Settles client (client', actions)) :
    actions.foldlM hold (some client.socketFd) = some client'.held := by
  cases h with
  | waits hi =>
    rw [held_idle hi]
    rfl
  | returns => simp [hold, LiveClient.held]
  | hangs _ => simp [hold, LiveClient.held]

/-- A step leaves the client with the socket it says it holds. -/
lemma Steps.held {client client' : LiveClient} {reply actions}
    (h : Steps client reply (client', actions)) :
    actions.foldlM hold client.held = some client'.held := by
  cases h with
  | settles hi _ hset =>
    rw [held_idle hi]
    exact hset.held
  | feeds hi _ _ hset =>
    rw [held_idle hi]
    exact hset.held
  | quits hi _ =>
    rw [held_idle hi]
    simp [hold, LiveClient.held]
  | ignores hi _ =>
    rw [held_idle hi]
    rfl
  | begins hi _ _ hp =>
    rw [held_idle hi, held_sends hp]
    rfl
  | sends hp _ hp' _ =>
    rw [held_sends hp, held_sends hp']
    simp [hold]
  | completes hp _ _ hset =>
    rw [held_sends hp, List.foldlM_cons, hold, if_pos rfl]
    exact hset.held
  | retries hp _ hp' =>
    rw [held_sends hp, held_sends hp']
    rfl
  | fails hp _ =>
    rw [held_sends hp]
    simp [hold, LiveClient.held]

lemma run_held {strerror : Errno → String} {client client' : LiveClient} {replies actions}
    (hs : client.phase.Sound)
    (h : run (LiveClient.step strerror) client replies = some (client', actions)) :
    actions.foldlM hold client.held = some client'.held := by
  induction replies generalizing client actions with
  | nil =>
    cases h
    rfl
  | cons reply replies ih =>
    obtain ⟨client₁, actions₁, actions₂, hstep, hrun, e⟩ := run_cons_inv h
    have hsteps := step_steps hs hstep
    subst e
    rw [List.foldlM_append, hsteps.held]
    exact ih (hsteps.sound hs) hrun

/-- Connecting leaves open at most the socket it returns. -/
lemma connectAddresses_held {attempts : List ConnectAttempt} {connected actions}
    (h : connectAddresses attempts = some (connected, actions)) :
    actions.foldlM hold none = some connected := by
  induction attempts generalizing connected actions with
  | nil =>
    cases h
    rfl
  | cons attempt attempts ih =>
    rw [connectAddresses] at h
    split at h
    case h_1 => exact ih h
    case h_2 candidate _ =>
      obtain ⟨done, -, h⟩ := Option.bind_eq_some_iff.mp h
      split at h
      case isTrue =>
        cases h
        rfl
      case isFalse =>
        obtain ⟨⟨connected', actions'⟩, hrest, h⟩ := Option.bind_eq_some_iff.mp h
        cases h
        simp only [List.foldlM_cons, hold, if_true, Option.bind_eq_bind, Option.bind_some]
        exact ih hrest

/-- No descriptor leaks. Whatever the system calls return, the program holds one socket at a time, only
writes to the one it holds, and has closed it when it has returned. -/
theorem session_descriptors {strerror : Errno → String} {host port : String} {lookup replies}
    {result : ProgramResult ⊕ LiveClient} {actions : List SocketAction}
    (h : runLiveProgram strerror host port lookup replies = some (result, actions)) :
    actions.foldlM hold none = some (result.elim (fun _ => none) LiveClient.held) := by
  obtain ⟨⟨connected, errors, opening⟩, hconnect, h⟩ := Option.bind_eq_some_iff.mp h
  have hopen : opening.foldlM hold none = some connected := by
    unfold connectTcp at hconnect
    split at hconnect
    · cases hconnect
      rfl
    · obtain ⟨⟨connected', actions'⟩, haddresses, hconnect⟩ := Option.bind_eq_some_iff.mp hconnect
      cases hconnect
      exact connectAddresses_held haddresses
  cases connected with
  | none =>
    cases h
    exact hopen
  | some socketFd =>
    obtain ⟨⟨client, more⟩, hrun, h⟩ := Option.bind_eq_some_iff.mp h
    cases h
    rw [List.foldlM_append, hopen]
    exact run_held sound_polling hrun

/-- One address refuses, the next one connects, and the user quits. -/
theorem session_descriptors_quit :
    [SocketAction.opened 3, .closed 3, .opened 3, .closed 3].foldlM hold none = some none :=
  @session_descriptors (fun _ => "") "localhost" "7000"
    (.ok [⟨some 3, [.error (.other 111)]⟩, ⟨some 3, [.error .intr, .ok ()]⟩])
    [.poll (.ok ({}, { pollIn := true })), .getline (some "quit".toList)]
    (.inr { socketFd := 3, phase := .exited 0 })
    [.opened 3, .closed 3, .opened 3, .closed 3] (by decide +kernel)

/-! ## The uplink -/

lemma Settles.uplink {client client' : LiveClient} {actions}
    (h : Settles client (client', actions)) :
    sentBytes actions = [] ∧ client'.phase.unsent = [] ∧ client'.sequencer = client.sequencer := by
  cases h with
  | waits hi => exact ⟨rfl, hi.unsent, rfl⟩
  | returns => exact ⟨rfl, rfl, rfl⟩
  | hangs _ => exact ⟨rfl, rfl, rfl⟩

lemma sentBytes_append (actions more : List SocketAction) :
    sentBytes (actions ++ more) = sentBytes actions ++ sentBytes more := List.flatMap_append

/-- Nothing is sent while connecting. -/
lemma sentBytes_connectTcp {host port : String} {lookup connected errors actions}
    (h : connectTcp host port lookup = some (connected, errors, actions)) : sentBytes actions = [] := by
  have haddresses : ∀ {attempts connected actions},
      connectAddresses attempts = some (connected, actions) → sentBytes actions = [] := by
    intro attempts connected actions h
    induction attempts generalizing connected actions with
    | nil =>
      cases h
      rfl
    | cons attempt attempts ih =>
      rw [connectAddresses] at h
      split at h
      · exact ih h
      · obtain ⟨done, -, h⟩ := Option.bind_eq_some_iff.mp h
        split at h
        · cases h
          rfl
        · obtain ⟨⟨connected', actions'⟩, hrest, h⟩ := Option.bind_eq_some_iff.mp h
          cases h
          have e := ih hrest
          exact e
  unfold connectTcp at h
  split at h
  · cases h
    rfl
  · obtain ⟨⟨connected', actions'⟩, hconnect, h⟩ := Option.bind_eq_some_iff.mp h
    cases h
    exact haddresses hconnect

/-- What is to be sent for the lines. -/
def toSend (sequencer : CommandSequencer) (replies : List LiveReply) : List UInt8 :=
  (runLive sequencer (typed replies)).flatMap EncodedFrame.view

/-- A step sends the front of what is to be sent, unless the client gives up. -/
lemma Steps.uplink {client client' : LiveClient} {reply actions} {replies : List LiveReply}
    (h : Steps client reply (client', actions))
    (hrest : ∀ status, client'.phase = .exited status → replies = []) :
    sentBytes actions ++ (client'.phase.unsent ++ toSend client'.sequencer replies) =
        client.phase.unsent ++ toSend client.sequencer (reply :: replies) ∨
      sentBytes actions = [] ∧ client'.phase = .exited 1 := by
  cases h with
  | settles hi hsilent hset =>
    left
    obtain ⟨e1, e2, e3⟩ := hset.uplink
    rw [toSend, toSend, typed_silent hsilent, hi.unsent, e1, e2, e3]
    rfl
  | feeds hi _ _ hset =>
    left
    obtain ⟨e1, e2, e3⟩ := hset.uplink
    rw [hi.unsent, e1, e2, e3]
    rfl
  | @quits line hi hparse =>
    left
    have e := hrest 0 rfl
    subst e
    have hlines : typed [.getline (some line)] = [line] := rfl
    rw [toSend, toSend, hlines, runLive, hparse, hi.unsent]
    rfl
  | @ignores line errors hi hparse =>
    left
    have hlines : typed (.getline (some line) :: replies) = line :: typed replies := rfl
    rw [toSend, toSend, hlines, runLive, hparse, hi.unsent]
    rfl
  | @begins line command periodMs phase hi hn hparse hp =>
    left
    have hlines : typed (.getline (some line) :: replies) = line :: typed replies := rfl
    have hok : (encodeCommand ⟨client.sequencer.nextSequence, command, periodMs⟩).ok :=
      (encodeCommand_wire hn).1
    rw [toSend, toSend, hlines, runLive, hparse, hi.unsent, hp.unsent]
    simp [CommandSequencer.makeCommand, hok, sentBytes]
  | @sends frame offset sent phase hp _ hp' _ =>
    left
    have hsent : sentBytes [.sent client.socketFd ((frame.view.drop offset).take sent)] =
        (frame.view.drop offset).take sent := List.append_nil _
    rw [hp.unsent, hp'.unsent, hsent, ← List.append_assoc, ← List.drop_drop, List.take_append_drop]
    rfl
  | @completes frame offset sent _ actions hp _ hle hset =>
    left
    obtain ⟨e1, e2, e3⟩ := hset.uplink
    have hsent : sentBytes (.sent client.socketFd ((frame.view.drop offset).take sent) :: actions) =
        (frame.view.drop offset).take sent ++ sentBytes actions := rfl
    have hall : (frame.view.drop offset).take sent = frame.view.drop offset := by
      apply List.take_of_length_le
      rw [List.length_drop, EncodedFrame.view, Buffer.length_contents]
      omega
    rw [hp.unsent, hsent, hall, e1, e2, e3, List.append_nil]
    rfl
  | retries hp hsilent hp' =>
    left
    rw [toSend, toSend, typed_silent hsilent, hp.unsent, phase_become, hp'.unsent, sequencer_become]
    rfl
  | fails _ _ => exact .inr ⟨rfl, rfl⟩

/-- What was sent, and what is left of the last command, are the commands of the lines. Only a client
that gives up leaves something out. -/
lemma run_uplink {strerror : Errno → String} {client client' : LiveClient} {replies actions}
    (hs : client.phase.Sound)
    (h : run (LiveClient.step strerror) client replies = some (client', actions)) :
    ∃ rest, sentBytes actions ++ rest =
        client.phase.unsent ++ toSend client.sequencer replies ∧
      (rest = client'.phase.unsent ∨ client'.phase = .exited 1) := by
  induction replies generalizing client actions with
  | nil =>
    cases h
    exact ⟨_, (List.append_nil _).symm, .inl rfl⟩
  | cons reply replies ih =>
    obtain ⟨client₁, actions₁, actions₂, hstep, hrun, e⟩ := run_cons_inv h
    have hsteps := step_steps hs hstep
    obtain ⟨rest, hrest, hend⟩ := ih (hsteps.sound hs) hrun
    subst e
    obtain hup | ⟨hnone, hgone⟩ := hsteps.uplink fun _ he => (run_exited he hrun).1
    · refine ⟨rest, ?_, hend⟩
      rw [sentBytes_append, List.append_assoc, hrest, hup]
    · obtain ⟨-, e1, e2⟩ := run_exited hgone hrun
      subst e1; subst e2
      refine ⟨client.phase.unsent ++ toSend client.sequencer (reply :: replies), ?_, .inr hgone⟩
      rw [sentBytes_append, hnone]
      rfl

/-- The uplink carries the commands. Whatever the system calls return, the bytes that were sent are
those of the commands that `parse` makes of the typed lines up to the first `quit`, each encoded, in
order and without a gap. What is missing is what is left of the command that is being sent, and only a
client that has returned 1 leaves out more. -/
theorem session_uplink {strerror : Errno → String} {host port : String} {lookup replies}
    {client : LiveClient} {actions : List SocketAction}
    (h : runLiveProgram strerror host port lookup replies = some (.inr client, actions)) :
    ∃ rest, sentBytes actions ++ rest =
        (commands {} (typed replies)).flatMap (fun c => (encodeCommand c).frame.view) ∧
      (rest = client.phase.unsent ∨ client.phase = .exited 1) := by
  obtain ⟨⟨connected, errors, opening⟩, hconnect, h⟩ := Option.bind_eq_some_iff.mp h
  cases connected with
  | none => cases h
  | some socketFd =>
    obtain ⟨⟨client', more⟩, hrun, h⟩ := Option.bind_eq_some_iff.mp h
    cases h
    obtain ⟨rest, hrest, hend⟩ := run_uplink sound_polling hrun
    refine ⟨rest, ?_, hend⟩
    rw [sentBytes_append, sentBytes_connectTcp hconnect, List.nil_append, hrest, toSend, runLive_eq,
      List.flatMap_map]
    rfl

/-- A ping of which four bytes have left. -/
theorem session_uplink_ping :
    ∃ rest, [0xA5, 0x5A, 1, 0x10] ++ rest =
      (commands {} ["ping".toList]).flatMap (fun c => (encodeCommand c).frame.view) :=
  (@session_uplink (fun _ => "") "localhost" "7000" (.ok [⟨some 3, [.ok ()]⟩])
    [.poll (.ok ({}, { pollIn := true })), .getline (some "ping".toList), .send (.error .again),
      .writable (.ok (1, { pollOut := true })), .send (.ok 4)]
    { socketFd := 3
      sequencer := { nextSequence := 2 }
      errno := .again
      phase := .sending { pollIn := true } (encodeCommand ⟨1, .ping, 0⟩).frame 4 }
    [.opened 3, .sent 3 [0xA5, 0x5A, 1, 0x10]] (by decide +kernel)).imp fun _ h => h.1

/-! ## The downlink -/

/-- The processor shows what the other one shows, after a text of its own. -/
structure Follows (text : String) (other processor : GroundStreamProcessor) : Prop where
  decoder : processor.decoder = other.decoder
  output : processor.output = text ++ other.output
  decodedMessages : processor.decodedMessages = other.decodedMessages
  malformedInput : processor.malformedInput = other.malformedInput

section
variable {text : String} {other processor : GroundStreamProcessor}

lemma Follows.errors (h : Follows text other processor) (errors : String) :
    Follows text other { processor with errors } where
  decoder := h.decoder
  output := h.output
  decodedMessages := h.decodedMessages
  malformedInput := h.malformedInput

lemma Follows.shows (h : Follows text other processor) (decoder : FrameStreamDecoder) (more : Shown) :
    Follows text ({ other with decoder }.add more) ({ processor with decoder }.add more) where
  decoder := rfl
  output := by simp [h.output, String.append_assoc]
  decodedMessages := by simp [h.decodedMessages]
  malformedInput := by simp [h.malformedInput]

/-- The same bytes are shown alike. -/
lemma Follows.feed (h : Follows text other processor) {bytes processor'}
    (hfeed : processor.feed bytes = some processor') :
    ∃ other', other.feed bytes = some other' ∧ Follows text other' processor' := by
  rw [feed_eq] at hfeed
  obtain ⟨⟨decoder, calls⟩, hpush, e⟩ := Option.map_eq_some_iff.mp hfeed
  subst e
  rw [feed_eq, ← h.decoder, hpush]
  exact ⟨_, rfl, h.shows decoder (shownBy calls)⟩

lemma Follows.finish (h : Follows text other processor) {processor'}
    (hfinish : processor.finish = some processor') :
    ∃ other', other.finish = some other' ∧ Follows text other' processor' := by
  rw [finish_eq] at hfinish
  obtain ⟨⟨decoder, calls⟩, hfin, e⟩ := Option.map_eq_some_iff.mp hfinish
  subst e
  rw [finish_eq, ← h.decoder, hfin]
  exact ⟨_, rfl, h.shows decoder (shownBy calls)⟩

end

/-- The client shows what the other processor shows, which has been finished when the server has hung
up. -/
def Mirrors (text : String) (other : GroundStreamProcessor) (client : LiveClient) : Prop :=
  Follows text other client.processor ∨
    ∃ finished, other.finish = some finished ∧ Follows text finished client.processor ∧
      client.phase = .exited 0

lemma Settles.mirrors {text : String} {other : GroundStreamProcessor} {client client' : LiveClient}
    {actions} (hf : Follows text other client.processor) (h : Settles client (client', actions)) :
    Mirrors text other client' := by
  cases h with
  | waits _ => exact .inl (hf.errors _)
  | returns => exact .inl (hf.errors _)
  | hangs hfinish =>
    obtain ⟨finished, hfinish', hf'⟩ := (hf.errors _).finish hfinish
    exact .inr ⟨finished, hfinish', hf', rfl⟩

/-- A step shows what the other processor shows when it is fed the bytes that the step received. -/
lemma Steps.mirrors {text : String} {other : GroundStreamProcessor} {client client' : LiveClient}
    {reply actions} (hf : Follows text other client.processor)
    (h : Steps client reply (client', actions)) :
    ∃ other', other.feed (receivedChunks [reply]).flatten = some other' ∧
      Mirrors text other' client' := by
  cases h with
  | settles _ hsilent hset =>
    rw [receivedChunks_silent hsilent]
    exact ⟨other, feed_nil other, hset.mirrors hf⟩
  | feeds _ hne hfeed hset =>
    obtain ⟨other', hfeed', hf'⟩ := hf.feed hfeed
    refine ⟨other', ?_, @Settles.mirrors text other' _ _ _ hf' hset⟩
    rw [receivedChunks_recv hne]
    simpa [receivedChunks] using hfeed'
  | quits _ _ => exact ⟨other, feed_nil other, .inl hf⟩
  | ignores _ _ => exact ⟨other, feed_nil other, .inl (hf.errors _)⟩
  | begins _ _ _ _ => exact ⟨other, feed_nil other, .inl hf⟩
  | sends _ _ _ _ => exact ⟨other, feed_nil other, .inl hf⟩
  | completes _ _ _ hset => exact ⟨other, feed_nil other, hset.mirrors hf⟩
  | retries _ hsilent _ =>
    rw [receivedChunks_silent hsilent]
    exact ⟨other, feed_nil other, .inl (hf.errors _)⟩
  | fails _ hsilent =>
    rw [receivedChunks_silent hsilent]
    exact ⟨other, feed_nil other, .inl (hf.errors _)⟩

lemma receivedChunks_append (replies more : List LiveReply) :
    receivedChunks (replies ++ more) = receivedChunks replies ++ receivedChunks more :=
  List.filterMap_append

lemma run_mirrors {strerror : Errno → String} {text : String} {other : GroundStreamProcessor}
    {client client' : LiveClient} {replies actions} (hs : client.phase.Sound)
    (hf : Follows text other client.processor)
    (h : run (LiveClient.step strerror) client replies = some (client', actions)) :
    ∃ other', other.feed (receivedChunks replies).flatten = some other' ∧
      Mirrors text other' client' := by
  induction replies generalizing client other actions with
  | nil =>
    cases h
    exact ⟨other, feed_nil other, .inl hf⟩
  | cons reply replies ih =>
    obtain ⟨client₁, _, _, hstep, hrun, -⟩ := run_cons_inv h
    have hsteps := step_steps hs hstep
    obtain ⟨other₁, hfeed₁, hm⟩ := hsteps.mirrors hf
    have hchunks : (receivedChunks (reply :: replies)).flatten =
        (receivedChunks [reply]).flatten ++ (receivedChunks replies).flatten := by
      rw [← List.flatten_append, ← receivedChunks_append]
      rfl
    rw [hchunks, feed_append, hfeed₁]
    rcases hm with hf₁ | ⟨finished, hfinish, hf₁, hp⟩
    · exact ih (hsteps.sound hs) hf₁ hrun
    · -- the server has hung up, and nothing comes after it
      obtain ⟨e1, e2, -⟩ := run_exited hp hrun
      subst e1; subst e2
      exact ⟨other₁, feed_nil other₁, .inr ⟨finished, hfinish, hf₁, hp⟩⟩

/-- The socket is hung up, without an error. -/
def Revents.HungUp (socket : Revents) : Prop :=
  ¬ (socket.pollErr ∨ socket.pollNval) ∧ socket.pollHup

/-- By these replies the server has closed the connection: `recv` returns no bytes, or `poll` reports it,
with nothing to read or with bytes that `recv` has returned, interrupted or not. -/
inductive HangsUp : List LiveReply → Prop
  | ended : HangsUp [.recv (.ok [])]
  | silent {socket stdin : Revents} : ¬ socket.pollIn → socket.HungUp →
    HangsUp [.poll (.ok (socket, stdin))]
  | read {socket stdin : Revents} {n : Nat} {byte : UInt8} {bytes : List UInt8} : socket.pollIn →
    socket.HungUp → HangsUp (.poll (.ok (socket, stdin)) ::
      (List.replicate n (.recv (.error .intr)) ++ [.recv (.ok (byte :: bytes))]))

/-- In the end of the replies the server has closed the connection. -/
def Disconnected (replies : List LiveReply) : Prop :=
  ∃ before last, replies = before ++ last ∧ HangsUp last

/-- The client has been fed the bytes, has finished, and has returned 0. -/
def Finishes (client : LiveClient) (bytes : List UInt8) (client' : LiveClient) : Prop :=
  ∃ fed errors, client.processor.feed bytes = some fed ∧
    GroundStreamProcessor.finish { fed with errors } = some client'.processor ∧
    client'.phase = .exited 0

lemma checkSocket_finishes {client client' : LiveClient} {socket stdin actions} (hu : socket.HungUp)
    (h : client.checkSocket socket stdin = some (client', actions)) : Finishes client [] client' := by
  rw [LiveClient.checkSocket, if_neg hu.1, if_pos hu.2] at h
  obtain ⟨processor, hfinish, e⟩ := Option.bind_eq_some_iff.mp h
  cases e
  exact ⟨client.processor, _, feed_nil _, hfinish, rfl⟩

/-- A `poll` is made in the head of the loop. -/
lemma poll_inv {strerror : Errno → String} {client : LiveClient} {socket stdin result}
    (h : client.step strerror (.poll (.ok (socket, stdin))) = some result) :
    client.phase = .polling ∧
      (if socket.pollIn then some (client.await (.receiving socket stdin))
        else client.checkSocket socket stdin) = some result := by
  unfold LiveClient.step at h
  cases hp : client.phase with
  | polling =>
    rw [hp] at h
    exact ⟨rfl, h⟩
  | _ =>
    rw [hp] at h
    cases h

/-- A `recv` that was interrupted is made again. -/
lemma interrupted_inv {strerror : Errno → String} {client client' : LiveClient} {actions}
    (h : client.step strerror (.recv (.error .intr)) = some (client', actions)) :
    client'.phase = client.phase ∧ client'.processor = client.processor := by
  unfold LiveClient.step at h
  cases hp : client.phase with
  | receiving socket stdin =>
    rw [hp] at h
    cases h
    exact ⟨rfl, rfl⟩
  | _ =>
    rw [hp] at h
    cases h

/-- The last of the bytes come with the hangup. -/
lemma read_finishes {strerror : Errno → String} {client client' : LiveClient} {socket stdin n actions}
    {byte : UInt8} {bytes : List UInt8} (hp : client.phase = .receiving socket stdin)
    (hu : socket.HungUp)
    (h : run (LiveClient.step strerror) client
      (List.replicate n (.recv (.error .intr)) ++ [.recv (.ok (byte :: bytes))]) =
        some (client', actions)) : Finishes client (byte :: bytes) client' := by
  induction n generalizing client actions with
  | zero =>
    rw [List.replicate_zero, List.nil_append, run_singleton] at h
    unfold LiveClient.step at h
    rw [hp] at h
    obtain ⟨processor, hfeed, h⟩ := Option.bind_eq_some_iff.mp h
    obtain ⟨fed, errors, hnil, hfinish, hexited⟩ := checkSocket_finishes hu h
    cases (feed_nil processor).symm.trans hnil
    exact ⟨processor, errors, hfeed, hfinish, hexited⟩
  | succ n ih =>
    rw [List.replicate_succ, List.cons_append] at h
    obtain ⟨client₁, _, _, hs, hrest, -⟩ := run_cons_inv h
    obtain ⟨hphase, hprocessor⟩ := interrupted_inv hs
    rw [Finishes, ← hprocessor]
    exact ih (hphase.trans hp) hrest

lemma receivedChunks_read (n : Nat) (byte : UInt8) (bytes : List UInt8) :
    receivedChunks (List.replicate n (.recv (.error .intr)) ++ [.recv (.ok (byte :: bytes))]) =
      [byte :: bytes] := by
  rw [receivedChunks_append]
  have hnone : receivedChunks (List.replicate n (.recv (.error .intr))) = [] := by
    rw [receivedChunks, List.filterMap_replicate_of_none rfl]
  rw [hnone]
  rfl

/-- A client that the server has hung up on has finished what it received. -/
lemma hangsUp_finishes {strerror : Errno → String} {client client' : LiveClient} {last actions}
    (hl : HangsUp last) (h : run (LiveClient.step strerror) client last = some (client', actions)) :
    Finishes client (receivedChunks last).flatten client' := by
  cases hl with
  | ended =>
    rw [run_singleton] at h
    unfold LiveClient.step at h
    cases hp : client.phase with
    | receiving socket stdin =>
      rw [hp] at h
      obtain ⟨processor, hfinish, e⟩ := Option.bind_eq_some_iff.mp h
      cases e
      exact ⟨client.processor, _, feed_nil _, hfinish, rfl⟩
    | _ =>
      rw [hp] at h
      cases h
  | silent hin hu =>
    rw [run_singleton] at h
    obtain ⟨-, h⟩ := poll_inv h
    rw [if_neg hin] at h
    exact checkSocket_finishes hu h
  | @read socket stdin n byte bytes hin hu =>
    obtain ⟨client₁, _, _, hs, hrest, -⟩ := run_cons_inv h
    obtain ⟨-, hs⟩ := poll_inv hs
    rw [if_pos hin] at hs
    cases hs
    have hchunks : (receivedChunks (.poll (.ok (socket, stdin)) ::
        (List.replicate n (.recv (.error .intr)) ++ [.recv (.ok (byte :: bytes))]))).flatten =
          byte :: bytes := by
      have hsilent : (LiveReply.poll (.ok (socket, stdin))).Silent := trivial
      rw [receivedChunks_silent hsilent, receivedChunks_read]
      exact List.append_nil _
    rw [hchunks]
    exact @read_finishes strerror (client.await (.receiving socket stdin)).1 _ socket stdin n _ byte
      bytes rfl hu hrest

/-- The end of the stream is the end of the processor's. -/
lemma run_disconnects {strerror : Errno → String} {text : String} {other : GroundStreamProcessor}
    {client client' : LiveClient} {replies actions} (hs : client.phase.Sound)
    (hf : Follows text other client.processor) (hd : Disconnected replies)
    (h : run (LiveClient.step strerror) client replies = some (client', actions)) :
    ∃ other' finished, other.feed (receivedChunks replies).flatten = some other' ∧
      other'.finish = some finished ∧ Follows text finished client'.processor ∧
      client'.phase = .exited 0 := by
  obtain ⟨before, last, e, hl⟩ := hd
  subst e
  obtain ⟨client₁, _, _, hbefore, hlast, -⟩ := run_append_inv h
  obtain ⟨other₁, hfeed₁, hm⟩ := run_mirrors hs hf hbefore
  obtain ⟨fed, errors, hfed, hfin, hexited⟩ := hangsUp_finishes hl hlast
  rcases hm with hf₁ | ⟨_, _, _, hp⟩
  · obtain ⟨other₂, hfeed₂, hf₂⟩ := hf₁.feed hfed
    obtain ⟨finished, hfinish, hf'⟩ := (hf₂.errors errors).finish hfin
    refine ⟨other₂, finished, ?_, hfinish, hf', hexited⟩
    rw [receivedChunks_append, List.flatten_append, feed_append, hfeed₁]
    exact hfeed₂
  · -- a client that has returned makes no calls
    obtain ⟨enone, -⟩ := run_exited hp hlast
    subst enone
    cases hl

/-- What `run_offline` does with a readable file. -/
lemma runOffline_readable (path : String) (bytes : List UInt8) :
    ∃ processor finished, ({} : GroundStreamProcessor).feed bytes = some processor ∧
      processor.finish = some finished ∧ runOffline path (.readable bytes) = some
        { exitCode := if finished.decodedMessages = 0 ∨ finished.malformedInput then 1 else 0
          output := processor.output
          errors := finished.errors } := by
  obtain ⟨chunks, e, hloop⟩ := readLoop_chunks bytes
  obtain ⟨decoder, calls, -, r, hpush, hready, -⟩ :=
    FrameStreamDecoder.push_scans (d := {}) (.empty rfl) bytes
  obtain ⟨decoder', calls', hfin, -⟩ := finish_drops hready.toHolds
  have hfeed : ({} : GroundStreamProcessor).feed bytes =
      some ({ ({} : GroundStreamProcessor) with decoder }.add (shownBy calls)) := by
    rw [feed_eq, hpush]
    rfl
  have hfinish : GroundStreamProcessor.finish
      ({ ({} : GroundStreamProcessor) with decoder }.add (shownBy calls)) =
      some (({ ({} : GroundStreamProcessor) with decoder := decoder' }.add (shownBy calls)).add
        (shownBy calls')) := by
    rw [finish_eq, GroundStreamProcessor.decoder_add, hfin]
    rfl
  refine ⟨_, _, hfeed, hfinish, ?_⟩
  rw [runOffline, hloop, foldlM_feed, e, hfeed, ← (finish_shows hfinish).1]
  show (GroundStreamProcessor.finish _ >>= _) = _
  rw [hfinish]
  rfl

/-- Live and offline the ground shows the same. Whatever the system calls return, and however they cut
the stream, the output of a live session is the banner and then the output of the offline run on a file
of the bytes it received. If the server has closed the connection, which `recv` or `poll` may report, the
session has returned 0, and its count and flag say what the offline run returns. -/
theorem session_offline {strerror : Errno → String} {host port : String} {lookup replies}
    {client : LiveClient} {actions : List SocketAction} (path : String)
    (h : runLiveProgram strerror host port lookup replies = some (.inr client, actions)) :
    ∃ result, runOffline path (.readable (receivedChunks replies).flatten) = some result ∧
      client.processor.output =
        "Connected. Commands: ping, safe, period <milliseconds>, quit\n" ++ result.output ∧
      (Disconnected replies → client.phase = .exited 0 ∧
        (result.exitCode = 0 ↔
          client.processor.decodedMessages ≠ 0 ∧ client.processor.malformedInput = false)) := by
  obtain ⟨⟨connected, errors, opening⟩, hconnect, h⟩ := Option.bind_eq_some_iff.mp h
  cases connected with
  | none => cases h
  | some socketFd =>
    obtain ⟨⟨client', more⟩, hrun, h⟩ := Option.bind_eq_some_iff.mp h
    cases h
    have hstart : Follows "Connected. Commands: ping, safe, period <milliseconds>, quit\n" {}
        ({ socketFd } : LiveClient).processor := ⟨rfl, rfl, rfl, rfl⟩
    obtain ⟨processor, hfeed, hm⟩ := run_mirrors sound_polling hstart hrun
    obtain ⟨processor', finished, hfeed', hfinish, hoffline⟩ :=
      runOffline_readable path (receivedChunks replies).flatten
    cases hfeed.symm.trans hfeed'
    refine ⟨_, hoffline, ?_, ?_⟩
    · rcases hm with hf | ⟨finished', hfinish', hf, -⟩
      · exact hf.output
      · rw [hf.output, (finish_shows hfinish').1]
    · intro hd
      obtain ⟨other, finished', hfeed₂, hfinish₂, hf, hp⟩ :=
        run_disconnects sound_polling hstart hd hrun
      cases hfeed.symm.trans hfeed₂
      cases hfinish.symm.trans hfinish₂
      refine ⟨hp, ?_⟩
      rw [hf.decodedMessages, hf.malformedInput]
      show (if _ then 1 else 0) = 0 ↔ _
      simp

/-- A stream of one byte of noise, after which the server hangs up. -/
theorem session_offline_noise :
    ∃ result, runOffline "telemetry" (.readable [0]) = some result ∧
      "Connected. Commands: ping, safe, period <milliseconds>, quit\n" =
        "Connected. Commands: ping, safe, period <milliseconds>, quit\n" ++ result.output ∧
      result.exitCode ≠ 0 := by
  obtain ⟨result, hoffline, houtput, hlast⟩ := @session_offline (fun _ => "") "localhost" "7000"
    (.ok [⟨some 3, [.ok ()]⟩])
    [.poll (.error .intr), .poll (.ok ({ pollIn := true, pollHup := true }, {})),
      .recv (.error .intr), .recv (.ok [0])]
    { socketFd := 3
      processor :=
        { output := "Connected. Commands: ping, safe, period <milliseconds>, quit\n"
          errors := "Discarded 1 noise byte(s)\nServer disconnected\n"
          malformedInput := true }
      errno := .intr
      phase := .exited 0 }
    [.opened 3, .closed 3] "telemetry" (by decide +kernel)
  have hd : Disconnected [.poll (.error .intr), .poll (.ok ({ pollIn := true, pollHup := true }, {})),
      .recv (.error .intr), .recv (.ok [0])] :=
    ⟨[.poll (.error .intr)], _, rfl, @HangsUp.read _ _ 1 0 [] rfl ⟨by decide, rfl⟩⟩
  refine ⟨result, hoffline, houtput, fun h => ?_⟩
  have hmalformed : true = false := ((hlast hd).2.mp h).2
  cases hmalformed

end ApogeeFC.Ground
