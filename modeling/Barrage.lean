import Barrage.Banner
import Barrage.ClientId
import Barrage.Link.Listeners
import Barrage.Main
import Barrage.Process.GateWait
import Barrage.Process.Trial
import Barrage.Proofs.ClientId
import Barrage.Proofs.Console.Conduct
import Barrage.Proofs.Console.Entries
import Barrage.Proofs.Console.Hearing
import Barrage.Proofs.Console.Refusal
import Barrage.Proofs.Console.Report
import Barrage.Proofs.Console.Run
import Barrage.Proofs.Daemon.Delivery
import Barrage.Proofs.Daemon.Replay
import Barrage.Proofs.Daemon.Step
import Barrage.Proofs.Handshake.Identity
import Barrage.Proofs.Handshake.Token
import Barrage.Proofs.Json.Frames
import Barrage.Proofs.Json.Literals
import Barrage.Proofs.Json.Reading
import Barrage.Proofs.Json.Values
import Barrage.Proofs.Link.Cutting
import Barrage.Proofs.Link.Inlet
import Barrage.Proofs.Link.Lines
import Barrage.Proofs.Link.Listeners
import Barrage.Proofs.Link.Peers
import Barrage.Proofs.Link.Posting
import Barrage.Proofs.Link.Reader
import Barrage.Proofs.Link.Reading
import Barrage.Proofs.Link.Sending
import Barrage.Proofs.Link.Server
import Barrage.Proofs.Link.Step
import Barrage.Proofs.Link.Verdict
import Barrage.Proofs.Message.Artifact
import Barrage.Proofs.Message.Carriage
import Barrage.Proofs.Message.Payloads
import Barrage.Proofs.Process.Abort
import Barrage.Proofs.Process.Bootstrap
import Barrage.Proofs.Process.Bound
import Barrage.Proofs.Process.Calls
import Barrage.Proofs.Process.Cues
import Barrage.Proofs.Process.GateLife
import Barrage.Proofs.Process.Host
import Barrage.Proofs.Process.HostEnd
import Barrage.Proofs.Process.HostHeard
import Barrage.Proofs.Process.HostMove
import Barrage.Proofs.Process.HostReports
import Barrage.Proofs.Process.Ids
import Barrage.Proofs.Process.Lateness
import Barrage.Proofs.Process.Moments
import Barrage.Proofs.Process.Outcome
import Barrage.Proofs.Process.Repeats
import Barrage.Proofs.Process.Schedule
import Barrage.Proofs.Process.Stages
import Barrage.Proofs.Process.Step
import Barrage.Proofs.Process.Transcript
import Barrage.Proofs.Process.Verdict
import Barrage.Proofs.Profile.Shares
import Barrage.Proofs.Settings
import Barrage.Proofs.Text.Base64
import Barrage.Proofs.Text.Blank
import Barrage.Proofs.Text.Decimal
import Barrage.Proofs.Time.Agenda
import Barrage.Proofs.Time.Calendar
import Barrage.Proofs.Time.Instant
import Barrage.Proofs.Time.Timestamp
import Barrage.Proofs.Trace
import Barrage.Proofs.Work.Await
import Barrage.Proofs.Work.Clock
import Barrage.Proofs.Work.Conservation
import Barrage.Proofs.Work.Counters
import Barrage.Proofs.Work.Custody
import Barrage.Proofs.Work.Dispatch
import Barrage.Proofs.Work.Ended
import Barrage.Proofs.Work.Order
import Barrage.Proofs.Work.Pool
import Barrage.Proofs.Work.Shutdown
import Barrage.Proofs.Work.Step
import Barrage.Proofs.Work.Timely
import Barrage.Proofs.Work.Workers
