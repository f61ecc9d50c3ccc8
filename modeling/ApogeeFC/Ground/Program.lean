import ApogeeFC.Ground.LiveSession

/-!
# The ground program

Model of `main` and `print_usage` in `apogee_ground_client.cpp`: the arguments choose between the offline
run, the live session and the usage text.

Whoever runs the program goes by what it returns and what is on `std::cerr`. Without `--connect` it always
returns; a live session goes on as long as the system calls let it. When it has returned, it has returned
0 or 1, and it says why it is 1, with one exception (`main_silent_iff`): a telemetry file that is empty is
a failure without a word.
-/

namespace ApogeeFC.Ground
open Codec Mealy ApogeeFC.Stream

/-- What the program finds outside: the texts of the library, the files, the addresses of a host and what
the system calls of a live session return. -/
structure Surroundings where
  strerror : Errno → String
  file : String → TelemetryFile
  lookup : String → String → Except String (List ConnectAttempt)
  replies : List LiveReply

/-- What `print_usage` writes, and the return after it. -/
def printUsage : ProgramResult where
  exitCode := 1
  output := ""
  errors := "Usage:\n  apogee_ground_client <binary-file>\n" ++
    "  apogee_ground_client --connect <host> <port>\n"

/-- The program, with the arguments after its name. -/
def main (surroundings : Surroundings) (arguments : List String) :
    Option ((ProgramResult ⊕ LiveClient) × List SocketAction) :=
  match arguments with
  | [path] => do
    let result ← runOffline path (surroundings.file path)
    some (.inl result, [])
  | [flag, host, port] =>
    if flag = "--connect" then
      runLiveProgram surroundings.strerror host port (surroundings.lookup host port)
        surroundings.replies
    else some (.inl printUsage, [])
  | _ => some (.inl printUsage, [])

/-- What a program that has returned leaves behind. -/
def outcome? : ProgramResult ⊕ LiveClient → Option ProgramResult
  | .inl result => some result
  | .inr client =>
    match client.phase with
    | .exited status =>
      some
        { exitCode := status
          output := client.processor.output
          errors := client.processor.errors }
    | _ => none

/-! ## Complaints -/

/-- The flag is not set without a word. -/
def GroundStreamProcessor.Loud (processor : GroundStreamProcessor) : Prop :=
  processor.malformedInput = true → processor.errors ≠ ""

/-- A text that begins with words is not empty. -/
lemma append_ne {first : String} (hf : first ≠ "") (more : String) : first ++ more ≠ "" :=
  fun e => hf (String.append_eq_empty_iff.mp e).1

lemma complain_loud (processor : GroundStreamProcessor) {text : String} (ht : text ≠ "") :
    (processor.complain text).Loud :=
  fun _ e => ht (String.append_eq_empty_iff.mp e).2

lemma handleEvent_loud {processor : GroundStreamProcessor} (h : processor.Loud)
    (event : FrameStreamEvent) : (processor.handleEvent event).Loud := by
  unfold GroundStreamProcessor.handleEvent
  split
  · -- a complaint of the decoder is passed on
    apply complain_loud
    split
    · exact append_ne (append_ne (by decide) _) _
    · decide
    · decide
  · dsimp only
    split
    · exact complain_loud _ (by decide)
    · split
      · unfold GroundStreamProcessor.printTelemetry
        dsimp only
        split
        · exact complain_loud _ (by decide)
        · exact h
      · unfold GroundStreamProcessor.printAcknowledgement
        dsimp only
        split
        · exact complain_loud _ (by decide)
        · exact h
      · exact complain_loud _ (by decide)
      · exact h

lemma handleCalls_loud {processor : GroundStreamProcessor} (h : processor.Loud)
    (calls : List HandlerCall) : (processor.handleCalls calls).Loud := by
  induction calls generalizing processor with
  | nil => exact h
  | cons call calls ih => exact ih (handleEvent_loud h call.event)

lemma feed_loud {processor processor' : GroundStreamProcessor} {bytes : List UInt8}
    (h : processor.Loud) (hfeed : processor.feed bytes = some processor') : processor'.Loud := by
  obtain ⟨⟨decoder, calls⟩, -, e⟩ := Option.bind_eq_some_iff.mp hfeed
  cases e
  apply handleCalls_loud
  exact h

lemma finish_loud {processor processor' : GroundStreamProcessor} (h : processor.Loud)
    (hfinish : processor.finish = some processor') : processor'.Loud := by
  obtain ⟨⟨decoder, calls⟩, -, e⟩ := Option.bind_eq_some_iff.mp hfinish
  cases e
  apply handleCalls_loud
  exact h

/-- The offline run returns. -/
lemma runOffline_returns (path : String) (file : TelemetryFile) :
    ∃ result, runOffline path file = some result := by
  cases file with
  | unopenable => exact ⟨_, rfl⟩
  | failing bytes =>
    obtain ⟨chunks, e, hloop⟩ := readLoop_chunks bytes
    obtain ⟨processor, _, hfeed, -⟩ := runOffline_readable path bytes
    rw [runOffline, hloop, foldlM_feed, e, hfeed]
    exact ⟨_, rfl⟩
  | readable bytes =>
    obtain ⟨_, _, -, -, hoffline⟩ := runOffline_readable path bytes
    exact ⟨_, hoffline⟩

/-- The offline run returns 0 or 1, and 1 without a word only for an empty file. -/
lemma runOffline_silent_iff {path : String} {file : TelemetryFile} {result : ProgramResult}
    (h : runOffline path file = some result) :
    (result.exitCode = 0 ∨ result.exitCode = 1) ∧
      (result.exitCode = 1 ∧ result.errors = "" ↔ file = .readable []) := by
  cases file with
  | unopenable =>
    cases h
    refine ⟨.inr rfl, fun hs => ?_, fun e => by cases e⟩
    exact absurd hs.2 (append_ne (append_ne (by decide) _) _)
  | failing bytes =>
    obtain ⟨processor, -, e⟩ := Option.bind_eq_some_iff.mp h
    cases e
    refine ⟨.inr rfl, fun hs => ?_, fun e => by cases e⟩
    exact absurd (String.append_eq_empty_iff.mp hs.2).2 (by decide)
  | readable bytes =>
    obtain ⟨processor, finished, hfeed, hfinish, hoffline⟩ := runOffline_readable path bytes
    rw [h] at hoffline
    cases hoffline
    have hloud : finished.Loud := finish_loud (feed_loud (fun e => by cases e) hfeed) hfinish
    obtain ⟨p, hsession, hgrammar, hrec⟩ := session_grammar [bytes]
    have hp : GroundStreamProcessor.session {} [bytes] = some finished := by
      rw [GroundStreamProcessor.session, List.foldlM_cons, hfeed]
      exact hfinish
    rw [hp] at hsession
    cases hsession
    rw [List.flatten_singleton] at hgrammar hrec
    constructor
    · dsimp only
      split
      · exact .inr rfl
      · exact .inl rfl
    constructor
    · rintro ⟨hexit, hsilent⟩
      dsimp only at hexit hsilent
      -- without a word the input was well formed, so no message was decoded
      have hclean : finished.malformedInput = false :=
        Bool.eq_false_iff.mpr fun hm => hloud hm hsilent
      obtain ⟨messages, hm⟩ := hgrammar.mp hclean
      have hdecoded := (hrec messages hm).decoded
      split at hexit
      case isTrue hnone =>
        have hzero : finished.decodedMessages = 0 := by
          rcases hnone with hnone | hnone
          · exact hnone
          · rw [hclean] at hnone
            cases hnone
        have hnil : messages = [] := List.length_eq_zero_iff.mp (hdecoded.symm.trans hzero)
        rw [hm.2, hnil]
        rfl
      case isFalse => cases hexit
    · intro e
      cases e
      have hr := hrec [] ⟨by simp, rfl⟩
      have hzero : finished.decodedMessages = 0 := hr.decoded
      dsimp only
      rw [if_pos (Or.inl hzero)]
      exact ⟨rfl, hr.errors⟩

/-! ## The end of a live session -/

/-- A client that has returned has returned 0 or 1, and has said why when it is 1. -/
def LiveClient.Explains (client : LiveClient) : Prop :=
  ∀ status, client.phase = .exited status →
    status = 0 ∨ status = 1 ∧ client.processor.errors ≠ ""

lemma explains_running {client : LiveClient} (h : ∀ status, client.phase ≠ .exited status) :
    client.Explains := fun status e => absurd e (h status)

lemma explains_zero {client : LiveClient} (h : client.phase = .exited 0) : client.Explains := by
  intro status e
  rw [h] at e
  cases e
  exact .inl rfl

lemma exit_explains (client : LiveClient) {text : String} (ht : text ≠ "") :
    ((client.report text).exit 1).1.Explains := by
  intro status e
  cases e
  exact .inr ⟨rfl, fun he => ht (String.append_eq_empty_iff.mp he).2⟩

lemma checkStdin_explains (client : LiveClient) (stdin : Revents) :
    (client.checkStdin stdin).1.Explains := by
  unfold LiveClient.checkStdin
  split
  · exact explains_zero rfl
  · exact explains_running fun status e => by cases e

lemma disconnect_explains {client : LiveClient} {result} (h : client.disconnect = some result) :
    result.1.Explains := by
  obtain ⟨processor, -, e⟩ := Option.bind_eq_some_iff.mp h
  cases e
  exact explains_zero rfl

lemma checkSocket_explains {client : LiveClient} {socket stdin : Revents} {result}
    (h : client.checkSocket socket stdin = some result) : result.1.Explains := by
  unfold LiveClient.checkSocket at h
  split at h
  · cases h
    exact exit_explains client (by decide)
  split at h
  · exact disconnect_explains h
  split at h
  · cases h
    exact explains_running fun status e => by cases e
  · cases h
    exact checkStdin_explains client stdin

lemma sendAll_explains (client : LiveClient) (stdin : Revents) (frame : EncodedFrame) (offset : Nat) :
    (client.sendAll stdin frame offset).1.Explains := by
  unfold LiveClient.sendAll
  split
  · exact explains_running fun status e => by cases e
  · exact checkStdin_explains client stdin

lemma failure_ne {first : String} (hf : first ≠ "") (why : String) : first ++ why ++ "\n" ≠ "" :=
  append_ne (append_ne hf _) _

lemma sendFailed_explains (strerror : Errno → String) (client : LiveClient) :
    (client.sendFailed strerror).1.Explains :=
  exit_explains client (failure_ne (by decide) _)

lemma takeLine_explains (client : LiveClient) (stdin : Revents) (line : List Char) :
    (client.takeLine stdin line).1.Explains := by
  unfold LiveClient.takeLine
  dsimp only
  split
  · exact explains_zero rfl
  · exact explains_running fun status e => by cases e
  · split
    · exact explains_running fun status e => by cases e
    · exact sendAll_explains _ stdin _ 0

/-- Whatever a system call returns, a client that returns then has explained itself. -/
lemma step_explains {strerror : Errno → String} {client : LiveClient} {reply : LiveReply} {result}
    (h : client.step strerror reply = some result) : result.1.Explains := by
  unfold LiveClient.step at h
  split at h
  case h_1 hp =>
    split at h
    · cases h
      exact explains_running fun status e => by cases hp.symm.trans e
    · cases h
      exact exit_explains _ (failure_ne (by decide) _)
  case h_2 =>
    split at h
    · cases h
      exact explains_running fun status e => by cases e
    · exact checkSocket_explains h
  case h_3 hp =>
    split at h
    · cases h
      exact explains_running fun status e => by cases hp.symm.trans e
    · cases h
      exact exit_explains _ (failure_ne (by decide) _)
  case h_4 => exact disconnect_explains h
  case h_5 =>
    obtain ⟨processor, -, h⟩ := Option.bind_eq_some_iff.mp h
    exact checkSocket_explains h
  case h_6 =>
    cases h
    exact explains_zero rfl
  case h_7 =>
    cases h
    exact takeLine_explains client _ _
  case h_8 =>
    split at h
    · cases h
      exact sendAll_explains client _ _ _
    · cases h
      exact sendFailed_explains strerror client
  case h_9 hp =>
    dsimp only at h
    split at h
    · cases h
      exact explains_running fun status e => by cases hp.symm.trans e
    split at h
    · cases h
      exact explains_running fun status e => by cases e
    · cases h
      exact sendFailed_explains strerror _
  case h_10 =>
    split at h
    · cases h
      exact sendAll_explains client _ _ _
    · cases h
      exact sendFailed_explains strerror client
  case h_11 hp =>
    split at h
    · cases h
      exact explains_running fun status e => by cases hp.symm.trans e
    · cases h
      exact sendFailed_explains strerror _
  case h_12 => cases h

lemma run_explains {strerror : Errno → String} {client client' : LiveClient} {replies actions}
    (h : client.Explains)
    (hr : run (LiveClient.step strerror) client replies = some (client', actions)) :
    client'.Explains := by
  induction replies generalizing client actions with
  | nil =>
    cases hr
    exact h
  | cons reply replies ih =>
    obtain ⟨client₁, _, _, hs, hrest, -⟩ := run_cons_inv hr
    exact ih (step_explains hs) hrest

/-- A session that could not connect has returned 1 and said why, and so has one that failed later. -/
lemma runLiveProgram_explains {strerror : Errno → String} {host port : String} {lookup replies}
    {result : ProgramResult ⊕ LiveClient} {actions : List SocketAction} {outcome : ProgramResult}
    (h : runLiveProgram strerror host port lookup replies = some (result, actions))
    (ho : outcome? result = some outcome) :
    outcome.exitCode = 0 ∨ outcome.exitCode = 1 ∧ outcome.errors ≠ "" := by
  obtain ⟨⟨connected, errors, opening⟩, hconnect, h⟩ := Option.bind_eq_some_iff.mp h
  cases connected with
  | none =>
    cases h
    cases ho
    apply Or.inr
    refine ⟨rfl, ?_⟩
    show errors ≠ ""
    unfold connectTcp at hconnect
    split at hconnect
    · cases hconnect
      exact failure_ne (by decide) _
    · obtain ⟨⟨connected, actions'⟩, -, e⟩ := Option.bind_eq_some_iff.mp hconnect
      cases connected with
      | none =>
        cases e
        exact append_ne (append_ne (append_ne (append_ne (by decide) _) _) _) _
      | some _ => cases e
  | some socketFd =>
    obtain ⟨⟨client, more⟩, hrun, h⟩ := Option.bind_eq_some_iff.mp h
    cases h
    have hexplains : client.Explains :=
      run_explains (explains_running fun status e => by cases e) hrun
    unfold outcome? at ho
    dsimp only at ho
    split at ho
    case h_1 status hp =>
      cases ho
      exact hexplains status hp
    case h_2 => cases ho

/-- The arguments ask for a live session. -/
def Connects (arguments : List String) : Prop :=
  ∃ host port, arguments = ["--connect", host, port]

/-- Without a live session the program always returns. -/
lemma main_returns (surroundings : Surroundings) {arguments : List String}
    (h : ¬ Connects arguments) :
    ∃ outcome, main surroundings arguments = some (.inl outcome, []) := by
  unfold main
  split
  case h_1 path =>
    obtain ⟨result, hoffline⟩ := runOffline_returns path (surroundings.file path)
    rw [hoffline]
    exact ⟨result, rfl⟩
  case h_2 flag host port =>
    split
    case isTrue e => exact absurd ⟨host, port, by rw [e]⟩ h
    case isFalse => exact ⟨_, rfl⟩
  case h_3 => exact ⟨_, rfl⟩

/-- What a program that has returned has returned and said. -/
lemma main_outcome {surroundings : Surroundings} {arguments : List String}
    {result : ProgramResult ⊕ LiveClient} {actions : List SocketAction} {outcome : ProgramResult}
    (h : main surroundings arguments = some (result, actions))
    (ho : outcome? result = some outcome) :
    (outcome.exitCode = 0 ∨ outcome.exitCode = 1) ∧
      (outcome.exitCode = 1 ∧ outcome.errors = "" ↔
        ∃ path, arguments = [path] ∧ surroundings.file path = .readable []) := by
  have husage : result = .inl printUsage → (∀ path, arguments ≠ [path]) →
      (outcome.exitCode = 0 ∨ outcome.exitCode = 1) ∧
        (outcome.exitCode = 1 ∧ outcome.errors = "" ↔
          ∃ path, arguments = [path] ∧ surroundings.file path = .readable []) := by
    intro e hne
    subst e
    cases ho
    refine ⟨.inr rfl, fun hs => absurd hs.2 (by decide), ?_⟩
    rintro ⟨path, e, -⟩
    exact absurd e (hne path)
  unfold main at h
  split at h
  case h_1 path =>
    obtain ⟨offline, hoffline, e⟩ := Option.bind_eq_some_iff.mp h
    cases e
    cases ho
    obtain ⟨hcode, hsilent⟩ := runOffline_silent_iff hoffline
    refine ⟨hcode, hsilent.trans ⟨fun e => ⟨path, rfl, e⟩, ?_⟩⟩
    rintro ⟨path', e, hfile⟩
    cases e
    exact hfile
  case h_2 flag host port =>
    split at h
    case isTrue =>
      have hexplains := runLiveProgram_explains h ho
      refine ⟨hexplains.imp_right And.left, fun hs => ?_, ?_⟩
      · rcases hexplains with h0 | ⟨-, hne⟩
        · rw [h0] at hs
          cases hs.1
        · exact absurd hs.2 hne
      · rintro ⟨path, e, -⟩
        cases e
    case isFalse =>
      cases h
      exact husage rfl fun path e => by cases e
  case h_3 hone _ =>
    cases h
    exact husage rfl hone

/-- Whatever the files, the addresses and the system calls: without `--connect` the program returns, and
whenever it has returned, it has returned 0 or 1. It returns 1 without writing to `std::cerr` if and only
if it was run on a file that is empty. -/
theorem main_silent_iff (surroundings : Surroundings) (arguments : List String) :
    (¬ Connects arguments → ∃ outcome, main surroundings arguments = some (.inl outcome, [])) ∧
      ∀ result actions outcome, main surroundings arguments = some (result, actions) →
        outcome? result = some outcome →
        (outcome.exitCode = 0 ∨ outcome.exitCode = 1) ∧
          (outcome.exitCode = 1 ∧ outcome.errors = "" ↔
            ∃ path, arguments = [path] ∧ surroundings.file path = .readable []) :=
  ⟨main_returns surroundings, fun _ _ _ h ho => main_outcome h ho⟩

/-- An empty file. -/
theorem main_silent_iff_empty :
    main ⟨fun _ => "", fun _ => .readable [], fun _ _ => .ok [], []⟩ ["telemetry"] =
        some (.inl ⟨1, "", ""⟩, []) ∧
      ((1 = 0 ∨ 1 = 1) ∧ (1 = 1 ∧ "" = "" ↔
        ∃ path, ["telemetry"] = [path] ∧ TelemetryFile.readable [] = .readable [])) := by
  have h : main ⟨fun _ => "", fun _ => .readable [], fun _ _ => .ok [], []⟩ ["telemetry"] =
      some (.inl ⟨1, "", ""⟩, []) := by decide +kernel
  exact ⟨h, (main_silent_iff _ _).2 _ _ _ h rfl⟩

end ApogeeFC.Ground
