import ApogeeFC.Ground.Live

/-!
# What a system call makes the live client do

`step_steps` says once what the client can do between two system calls (`Steps`). Most calls change
neither what has been received nor what is to be sent; after these, and at the end of the loop body, the
client goes on to another call or returns (`Settles`). What is said of whole sessions is proved by
induction on the replies with this case analysis.
-/

namespace ApogeeFC.Ground
open Codec Mealy

/-- No command is being sent, and the program has not returned. -/
def LivePhase.Idle : LivePhase → Prop
  | .polling => True
  | .receiving _ _ => True
  | .reading _ => True
  | .sending _ _ _ => False
  | .waiting _ _ _ => False
  | .exited _ => False

/-- The frame that is being sent, and how much of it has left. -/
def LivePhase.Sends (frame : EncodedFrame) (offset : Nat) : LivePhase → Prop
  | .sending _ frame' offset' => frame' = frame ∧ offset' = offset
  | .waiting _ frame' offset' => frame' = frame ∧ offset' = offset
  | _ => False

/-- A frame is only sent while some of it is left. -/
def LivePhase.Sound (phase : LivePhase) : Prop :=
  ∀ frame offset, phase.Sends frame offset → offset < frame.size

/-- Neither bytes nor a line. -/
def LiveReply.Silent : LiveReply → Prop
  | .recv (.ok (_ :: _)) => False
  | .getline (some _) => False
  | _ => True

/-- The same client but for its phase, `errno` and what is on `std::cerr`. -/
def LiveClient.become (client : LiveClient) (errno : Errno) (errors : String) (phase : LivePhase) :
    LiveClient :=
  { client with processor := { client.processor with errors }, errno, phase }

section Become
variable (client : LiveClient) (errno : Errno) (errors : String) (phase : LivePhase)

@[simp] lemma socketFd_become : (client.become errno errors phase).socketFd = client.socketFd := rfl

@[simp] lemma phase_become : (client.become errno errors phase).phase = phase := rfl

@[simp] lemma sequencer_become : (client.become errno errors phase).sequencer = client.sequencer := rfl

@[simp] lemma processor_become :
    (client.become errno errors phase).processor = { client.processor with errors } := rfl

end Become

/-- The client goes on to a call that is not about sending, or it returns. -/
inductive Settles (client : LiveClient) : LiveClient × List SocketAction → Prop
  | waits {errno errors phase} : phase.Idle → Settles client (client.become errno errors phase, [])
  | returns {errno errors status} :
    Settles client (client.become errno errors (.exited status), [.closed client.socketFd])
  | hangs {errors processor} : GroundStreamProcessor.finish { client.processor with errors } =
      some processor →
    Settles client ({ client with processor, phase := .exited 0 }, [.closed client.socketFd])

/-- What the client can do when a system call has returned. -/
inductive Steps (client : LiveClient) : LiveReply → LiveClient × List SocketAction → Prop
  | settles {reply result} : client.phase.Idle → reply.Silent → Settles client result →
    Steps client reply result
  | feeds {bytes processor result} : client.phase.Idle → bytes ≠ [] →
    client.processor.feed bytes = some processor → Settles { client with processor } result →
    Steps client (.recv (.ok bytes)) result
  | quits {line} : client.phase.Idle →
    client.sequencer.parse line = (client.sequencer, { status := .quit }) →
    Steps client (.getline (some line))
      ({ client with phase := .exited 0 }, [.closed client.socketFd])
  | ignores {line errors} : client.phase.Idle →
    client.sequencer.parse line = (client.sequencer, {}) →
    Steps client (.getline (some line)) (client.become client.errno errors .polling, [])
  | begins {line command periodMs phase} : client.phase.Idle → command.Named →
    client.sequencer.parse line = client.sequencer.makeCommand command periodMs →
    phase.Sends (encodeCommand ⟨client.sequencer.nextSequence, command, periodMs⟩).frame 0 →
    Steps client (.getline (some line))
      ({ client with sequencer := { nextSequence := client.sequencer.nextSequence + 1 }, phase }, [])
  | sends {frame offset sent phase} : client.phase.Sends frame offset → 0 < sent →
    phase.Sends frame (offset + sent) → offset + sent < frame.size →
    Steps client (.send (.ok sent))
      ({ client with phase }, [.sent client.socketFd ((frame.view.drop offset).take sent)])
  | completes {frame offset sent client' actions} : client.phase.Sends frame offset → 0 < sent →
    frame.size ≤ offset + sent → Settles client (client', actions) →
    Steps client (.send (.ok sent))
      (client', .sent client.socketFd ((frame.view.drop offset).take sent) :: actions)
  | retries {reply frame offset errno phase} : client.phase.Sends frame offset → reply.Silent →
    phase.Sends frame offset →
    Steps client reply (client.become errno client.processor.errors phase, [])
  | fails {reply frame offset errno errors} : client.phase.Sends frame offset → reply.Silent →
    Steps client reply (client.become errno errors (.exited 1), [.closed client.socketFd])

/-- The end of the loop body. -/
lemma checkStdin_settles (client : LiveClient) (stdin : Revents) :
    Settles client (client.checkStdin stdin) := by
  unfold LiveClient.checkStdin
  split
  · exact .returns
  · exact .waits trivial

/-- The loop body after the socket has been read. -/
lemma checkSocket_settles {client : LiveClient} {socket stdin : Revents} {result}
    (h : client.checkSocket socket stdin = some result) : Settles client result := by
  unfold LiveClient.checkSocket at h
  split at h
  · cases h
    exact .returns
  split at h
  · obtain ⟨processor, hfin, h⟩ := Option.bind_eq_some_iff.mp h
    cases h
    exact .hangs hfin
  split at h
  · cases h
    exact .waits trivial
  · cases h
    exact checkStdin_settles client stdin

lemma disconnect_settles {client : LiveClient} {result} (h : client.disconnect = some result) :
    Settles client result := by
  obtain ⟨processor, hfin, h⟩ := Option.bind_eq_some_iff.mp h
  cases h
  exact .hangs hfin

/-- An encoded command is not empty. -/
lemma size_encodeCommand {message : CommandMessage} (h : message.command.Named) :
    0 < (encodeCommand message).frame.size := by
  obtain ⟨-, hview⟩ := encodeCommand_wire h
  have hl := congrArg List.length hview
  rw [length_wire, EncodedFrame.view, Buffer.length_contents] at hl
  change _ = 12 + _ at hl
  omega

/-- What a line makes the client do. -/
lemma takeLine_steps {client : LiveClient} (hi : client.phase.Idle) (stdin : Revents)
    (line : List Char) : Steps client (.getline (some line)) (client.takeLine stdin line) := by
  have hp := parse_parses client.sequencer line
  unfold LiveClient.takeLine
  generalize hr : client.sequencer.parse line = result at hp
  cases hp with
  | quit => exact .quits hi hr
  | invalid => exact .ignores hi hr
  | @command command periodMs hn _ =>
    have hok : (encodeCommand ⟨client.sequencer.nextSequence, command, periodMs⟩).ok :=
      (encodeCommand_wire hn).1
    have hsize : 0 < (encodeCommand ⟨client.sequencer.nextSequence, command, periodMs⟩).frame.size :=
      size_encodeCommand hn
    simp only [CommandSequencer.makeCommand, hok, not_true_eq_false, if_false, LiveClient.sendAll, hsize,
      if_true]
    exact .begins hi hn hr ⟨rfl, rfl⟩

lemma sendFailed_fails {strerror : Errno → String} {client : LiveClient} {reply : LiveReply}
    {frame offset} (errno : Errno) (hp : client.phase.Sends frame offset) (hr : reply.Silent) :
    Steps client reply ({ client with errno }.sendFailed strerror) := .fails hp hr

/-- A step does one of these things. -/
lemma step_steps {strerror : Errno → String} {client : LiveClient} {reply : LiveReply} {result}
    (hs : client.phase.Sound) (h : client.step strerror reply = some result) :
    Steps client reply result := by
  obtain ⟨socketFd, processor, sequencer, errno, phase⟩ := client
  cases phase with
  | exited status => cases reply <;> cases h
  | polling =>
    cases reply with
    | poll status =>
      cases status with
      | error errno =>
        dsimp only [LiveClient.step] at h
        split at h
        · cases h
          exact .settles trivial trivial (.waits trivial)
        · cases h
          exact .settles trivial trivial .returns
      | ok events =>
        obtain ⟨socket, stdin⟩ := events
        dsimp only [LiveClient.step] at h
        split at h
        · cases h
          exact .settles trivial trivial (.waits trivial)
        · exact .settles trivial trivial (checkSocket_settles h)
    | _ => cases h
  | receiving socket stdin =>
    cases reply with
    | recv received =>
      cases received with
      | error errno =>
        dsimp only [LiveClient.step] at h
        split at h
        · cases h
          exact .settles trivial trivial (.waits trivial)
        · cases h
          exact .settles trivial trivial .returns
      | ok bytes =>
        cases bytes with
        | nil => exact .settles trivial trivial (disconnect_settles h)
        | cons byte bytes =>
          obtain ⟨processor', hfeed, h⟩ := Option.bind_eq_some_iff.mp h
          exact .feeds trivial (List.cons_ne_nil byte bytes) hfeed (checkSocket_settles h)
    | _ => cases h
  | reading stdin =>
    cases reply with
    | getline line =>
      cases line with
      | none =>
        cases h
        exact .settles trivial trivial .returns
      | some line =>
        cases h
        exact @takeLine_steps ⟨socketFd, processor, sequencer, errno, .reading stdin⟩ trivial stdin line
    | _ => cases h
  | sending stdin frame offset =>
    have hsends : (LivePhase.sending stdin frame offset).Sends frame offset := ⟨rfl, rfl⟩
    have hwaits : (LivePhase.waiting stdin frame offset).Sends frame offset := ⟨rfl, rfl⟩
    cases reply with
    | send sent =>
      cases sent with
      | error errno' =>
        dsimp only [LiveClient.step] at h
        split at h
        · cases h
          exact .retries hsends trivial hsends
        split at h
        · cases h
          exact .retries hsends trivial hwaits
        · cases h
          exact sendFailed_fails errno' hsends trivial
      | ok sent =>
        dsimp only [LiveClient.step] at h
        split at h
        case isTrue hpos =>
          cases h
          by_cases hlt : offset + sent < frame.size
          · rw [LiveClient.sendAll, if_pos hlt]
            exact .sends hsends hpos ⟨rfl, rfl⟩ hlt
          · rw [LiveClient.sendAll, if_neg hlt]
            exact @Steps.completes ⟨socketFd, processor, sequencer, errno, _⟩ _ _ _ _ _ hsends hpos
              (Nat.le_of_not_lt hlt) (checkStdin_settles _ stdin)
        case isFalse =>
          cases h
          exact sendFailed_fails errno hsends trivial
    | _ => cases h
  | waiting stdin frame offset =>
    have hsends : (LivePhase.sending stdin frame offset).Sends frame offset := ⟨rfl, rfl⟩
    have hwaits : (LivePhase.waiting stdin frame offset).Sends frame offset := ⟨rfl, rfl⟩
    cases reply with
    | writable status =>
      cases status with
      | error errno' =>
        dsimp only [LiveClient.step] at h
        split at h
        · cases h
          exact .retries hwaits trivial hwaits
        · cases h
          exact sendFailed_fails errno' hwaits trivial
      | ok status =>
        obtain ⟨status, revents⟩ := status
        dsimp only [LiveClient.step] at h
        split at h
        · cases h
          have hlt : offset < frame.size := hs frame offset hwaits
          rw [LiveClient.sendAll, if_pos hlt]
          exact .retries hwaits trivial hsends
        · cases h
          exact sendFailed_fails errno hwaits trivial
    | _ => cases h

end ApogeeFC.Ground
