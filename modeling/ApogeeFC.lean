import ApogeeFC.Lib.Mealy
import ApogeeFC.Lib.Scan
import ApogeeFC.Codec.Frame
import ApogeeFC.Codec.FrameWire
import ApogeeFC.Stream.Decoder
import ApogeeFC.Stream.Scanner
import ApogeeFC.Stream.Drive
import ApogeeFC.Stream.Refine
import ApogeeFC.Stream.Push
import ApogeeFC.Stream.Resync
import ApogeeFC.Codec.Command
import ApogeeFC.Codec.CommandWire
import ApogeeFC.Codec.Telemetry
import ApogeeFC.Codec.TelemetryWire
import ApogeeFC.Codec.Rejection
import ApogeeFC.Flight.Invariant
import ApogeeFC.Flight.Recovery
import ApogeeFC.Ground.Grammar
import ApogeeFC.Ground.Sequencer
import ApogeeFC.Lib.Strip
import ApogeeFC.Ground.CommandLine
import ApogeeFC.Flight.Schedule
import ApogeeFC.System.EndToEnd
import ApogeeFC.Flight.History
import ApogeeFC.Flight.Journal
import ApogeeFC.Flight.Answers
import ApogeeFC.Flight.Deadline
import ApogeeFC.Flight.CatchUp
import ApogeeFC.Stream.Accounting
import ApogeeFC.Stream.Session
import ApogeeFC.Stream.Noise
import ApogeeFC.Stream.CleanStream
import ApogeeFC.Codec.Corruption
import ApogeeFC.Lib.CrcPoly
import ApogeeFC.Codec.Remainder
import ApogeeFC.Ground.Live
import ApogeeFC.Ground.LiveStep
import ApogeeFC.Ground.LiveSession
import ApogeeFC.Ground.Shown
import ApogeeFC.Lib.Exchange
import ApogeeFC.System.Link
import ApogeeFC.System.LinkSafety
import ApogeeFC.System.LinkProgress
import ApogeeFC.Flight.Mission
import ApogeeFC.System.MissionDownlink
import ApogeeFC.Flight.Console
import ApogeeFC.Flight.Budget
import ApogeeFC.System.ConsoleDownlink
import ApogeeFC.Ground.Display
import ApogeeFC.Ground.Program
import ApogeeFC.System.Separation
import ApogeeFC.Stream.Damage
import ApogeeFC.System.DamagedLink
import ApogeeFC.Flight.Undisturbed
