import ApogeeFC.Ground.Processor
import ApogeeFC.Ground.Sequencer
import ApogeeFC.Lib.Mealy

/-!
# The live client

Model of `connect_tcp`, `wait_until_writable`, `send_all` and `run_live` in `apogee_ground_client.cpp`.

The program runs from one system call to the next, and what a call returns is an input. A phase of the
client is the call that it waits for, with the local variables that it needs afterwards. `step` takes
what the call returned and runs up to the next call. A reply to another call than the one that is made
is no step.

The processor writes to `std::cout` and `std::cerr`, and so does `run_live`. Both texts are kept in the
processor. What goes over the socket is an output, and so is the closing of it.
-/

namespace ApogeeFC.Ground
open Codec

/-- The values of `errno` that the program tells apart. -/
inductive Errno where
  | intr
  | again
  | wouldBlock
  | other (code : Nat)
  deriving DecidableEq, Repr

/-- What a system call returns: a value, or -1 and the `errno`. -/
abbrev Returned (α : Type) := Except Errno α

/-- The bits of `revents` that the program looks at. -/
structure Revents where
  pollIn : Bool := false
  pollOut : Bool := false
  pollErr : Bool := false
  pollHup : Bool := false
  pollNval : Bool := false
  deriving DecidableEq, Repr

/-- What is done with a socket. -/
inductive SocketAction where
  | opened (descriptor : Nat)
  | sent (descriptor : Nat) (bytes : List UInt8)
  | closed (descriptor : Nat)
  deriving DecidableEq, Repr

/-! ## Connecting -/

/-- What `socket` and the calls of `connect` return for one of the addresses. -/
structure ConnectAttempt where
  candidate : Option Nat
  connects : List (Returned Unit)

/-- The `do` loop around `connect`, as whether it connects. -/
def connectLoop : List (Returned Unit) → Option Bool
  | [] => none
  | .ok () :: _ => some true
  | .error errno :: replies => if errno = .intr then connectLoop replies else some false

/-- The loop over the addresses. -/
def connectAddresses : List ConnectAttempt → Option (Option Nat × List SocketAction)
  | [] => some (none, [])
  | attempt :: attempts =>
    match attempt.candidate with
    | none => connectAddresses attempts
    | some candidate => do
      let connected ← connectLoop attempt.connects
      if connected then some (some candidate, [.opened candidate])
      else do
        let (connectedSocket, actions) ← connectAddresses attempts
        some (connectedSocket, .opened candidate :: .closed candidate :: actions)

/-- `connect_tcp`: the socket, what it writes to `std::cerr`, and what it does with sockets. The lookup
fails with the text of `gai_strerror`. -/
def connectTcp (host port : String) (lookup : Except String (List ConnectAttempt)) :
    Option (Option Nat × String × List SocketAction) :=
  match lookup with
  | .error text => some (none, "Address lookup failed: " ++ text ++ "\n", [])
  | .ok attempts => do
    let (connectedSocket, actions) ← connectAddresses attempts
    let errors :=
      match connectedSocket with
      | none => "Unable to connect to " ++ host ++ ":" ++ port ++ "\n"
      | some _ => ""
    some (connectedSocket, errors, actions)

/-! ## The loop -/

/-- The system call that the program waits for. -/
inductive LivePhase where
  | polling
  | receiving (socket stdin : Revents)
  | reading (stdin : Revents)
  | sending (stdin : Revents) (frame : EncodedFrame) (offset : Nat)
  | waiting (stdin : Revents) (frame : EncodedFrame) (offset : Nat)
  | exited (status : Nat)
  deriving DecidableEq, Repr

/-- What the calls return. `recv` returns no bytes at the end of the stream, `getline` no line at the
end of the input, and `poll` on the socket alone the number of descriptors that are ready. -/
inductive LiveReply where
  | poll (status : Returned (Revents × Revents))
  | recv (received : Returned (List UInt8))
  | getline (line : Option (List Char))
  | send (sent : Returned Nat)
  | writable (status : Returned (Nat × Revents))

/-- The local variables of `run_live`. -/
structure LiveClient where
  socketFd : Nat
  processor : GroundStreamProcessor :=
    { output := "Connected. Commands: ping, safe, period <milliseconds>, quit\n" }
  sequencer : CommandSequencer := {}
  errno : Errno := .other 0
  phase : LivePhase := .polling
  deriving DecidableEq, Repr

namespace LiveClient

/-- Write to `std::cerr`. -/
def report (client : LiveClient) (text : String) : LiveClient :=
  { client with
    processor := { client.processor with errors := client.processor.errors ++ text } }

/-- Close the socket and return. -/
def exit (client : LiveClient) (status : Nat) : LiveClient × List SocketAction :=
  ({ client with phase := .exited status }, [.closed client.socketFd])

/-- Wait for the next call. -/
def await (client : LiveClient) (phase : LivePhase) : LiveClient × List SocketAction :=
  ({ client with phase }, [])

/-- The server has closed the connection. -/
def disconnect (client : LiveClient) : Option (LiveClient × List SocketAction) := do
  let client := client.report "Server disconnected\n"
  let processor ← client.processor.finish
  some ({ client with processor }.exit 0)

/-- The end of the loop body. -/
def checkStdin (client : LiveClient) (stdin : Revents) : LiveClient × List SocketAction :=
  if stdin.pollHup ∨ stdin.pollErr ∨ stdin.pollNval then client.exit 0 else client.await .polling

/-- The loop body after the socket has been read. -/
def checkSocket (client : LiveClient) (socket stdin : Revents) :
    Option (LiveClient × List SocketAction) :=
  if socket.pollErr ∨ socket.pollNval then some ((client.report "Socket error\n").exit 1)
  else if socket.pollHup then client.disconnect
  else if stdin.pollIn then some (client.await (.reading stdin))
  else some (client.checkStdin stdin)

/-- `send_all`, from its loop condition on. -/
def sendAll (client : LiveClient) (stdin : Revents) (frame : EncodedFrame) (offset : Nat) :
    LiveClient × List SocketAction :=
  if offset < frame.size then client.await (.sending stdin frame offset) else client.checkStdin stdin

/-- `send_all` has returned false. -/
def sendFailed (strerror : Errno → String) (client : LiveClient) :
    LiveClient × List SocketAction :=
  (client.report ("Socket send failed: " ++ strerror client.errno ++ "\n")).exit 1

/-- What is done with a line. -/
def takeLine (client : LiveClient) (stdin : Revents) (line : List Char) :
    LiveClient × List SocketAction :=
  let (sequencer, parsed) := client.sequencer.parse line
  let client := { client with sequencer }
  match parsed.status with
  | .quit => client.exit 0
  | .invalidSyntax => (client.report "Invalid command syntax\n").await .polling
  | .command =>
    let encoded := encodeCommand parsed.command
    if ¬ encoded.ok then (client.report "Command encoding failed\n").await .polling
    else client.sendAll stdin encoded.frame 0

/-- From the return of a system call to the next system call. -/
def step (strerror : Errno → String) (client : LiveClient) (reply : LiveReply) :
    Option (LiveClient × List SocketAction) :=
  match client.phase, reply with
  | .polling, .poll (.error errno) =>
    if errno = .intr then some ({ client with errno }, [])
    else
      some (({ client with errno }.report ("poll failed: " ++ strerror errno ++ "\n")).exit 1)
  | .polling, .poll (.ok (socket, stdin)) =>
    if socket.pollIn then some (client.await (.receiving socket stdin))
    else client.checkSocket socket stdin
  | .receiving _ _, .recv (.error errno) =>
    if errno = .intr then some ({ client with errno }, [])
    else
      some (({ client with errno }.report
        ("Socket receive failed: " ++ strerror errno ++ "\n")).exit 1)
  | .receiving _ _, .recv (.ok []) => client.disconnect
  | .receiving socket stdin, .recv (.ok (byte :: bytes)) => do
    let processor ← client.processor.feed (byte :: bytes)
    { client with processor }.checkSocket socket stdin
  | .reading _, .getline none => some (client.exit 0)
  | .reading stdin, .getline (some line) => some (client.takeLine stdin line)
  | .sending stdin frame offset, .send (.ok sent) =>
    if 0 < sent then
      let (next, actions) := client.sendAll stdin frame (offset + sent)
      some (next, .sent client.socketFd ((frame.view.drop offset).take sent) :: actions)
    else some (client.sendFailed strerror)
  | .sending stdin frame offset, .send (.error errno) =>
    let client := { client with errno }
    if errno = .intr then some (client, [])
    else if errno = .again ∨ errno = .wouldBlock then
      some (client.await (.waiting stdin frame offset))
    else some (client.sendFailed strerror)
  | .waiting stdin frame offset, .writable (.ok (status, revents)) =>
    if 0 < status ∧ revents.pollOut then some (client.sendAll stdin frame offset)
    else some (client.sendFailed strerror)
  | .waiting _ _ _, .writable (.error errno) =>
    if errno = .intr then some ({ client with errno }, [])
    else some ({ client with errno }.sendFailed strerror)
  | _, _ => none

end LiveClient

/-- `run_live`, from the replies to the calls before the loop and in it. It returns one if it is not
connected; otherwise the client is where the replies have led it. -/
def runLiveProgram (strerror : Errno → String) (host port : String)
    (lookup : Except String (List ConnectAttempt)) (replies : List LiveReply) :
    Option ((ProgramResult ⊕ LiveClient) × List SocketAction) := do
  let (socketFd, errors, actions) ← connectTcp host port lookup
  match socketFd with
  | none => some (.inl { exitCode := 1, output := "", errors }, actions)
  | some socketFd => do
    let (client, more) ← Mealy.run (LiveClient.step strerror) { socketFd } replies
    some (.inr client, actions ++ more)

end ApogeeFC.Ground
