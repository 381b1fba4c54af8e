import RustBackup.Io.Proc
import RustBackup.Io.Hoare
import RustBackup.Io.Duplex
import RustBackup.Io.Orderly
import RustBackup.Io.Rendezvous
import RustBackup.Io.Feed
import RustBackup.Io.Loops
import RustBackup.Io.Solo
import RustBackup.Io.Backpressure
import RustBackup.Io.Tasks
import RustBackup.Io.Fair
import RustBackup.Io.Pipe
import RustBackup.Io.Line
import RustBackup.Serde.Json
import RustBackup.Serde.Text
import RustBackup.Core.Data
import RustBackup.Core.Wire
import RustBackup.Core.Framing
import RustBackup.Core.Channel
import RustBackup.Core.Session
import RustBackup.Core.Script
import RustBackup.Core.SourceLog
import RustBackup.Core.DestLog
import RustBackup.Core.Agreement
import RustBackup.Core.Audit
import RustBackup.Core.Gate
import RustBackup.Core.Fidelity
import RustBackup.Core.Truncation
import RustBackup.Core.Decoder
import RustBackup.Core.Payload
import RustBackup.Core.Issues
import RustBackup.Core.Delivery
import RustBackup.Core.Version
import RustBackup.Core.Backpressure
import RustBackup.Core.OneStream
import RustBackup.Core.Params
import RustBackup.Cli.Args
import RustBackup.Transport.Proto
import RustBackup.Transport.Codec
import RustBackup.Transport.Receiver
import RustBackup.Transport.Auth
import RustBackup.Transport.Server
import RustBackup.Transport.Handshake
import RustBackup.Transport.Handler
import RustBackup.Transport.Registry
import RustBackup.Transport.Relay
import RustBackup.Transport.World
import RustBackup.Transport.Splice
import RustBackup.Transport.Isolation
import RustBackup.Transport.Meeting
import RustBackup.Transport.Mux
import RustBackup.Transport.Tunnel
import RustBackup.Transport.Heartbeat
import RustBackup.Core.StreamUse
import RustBackup.Transport.Permits
import RustBackup.Transport.Secret
import RustBackup.Transport.Opener
import RustBackup.Deployment.Clients
import RustBackup.Deployment.Simulation
import RustBackup.Deployment.EndToEnd
import RustBackup.Io.Sequence
import RustBackup.Io.Interpret
import RustBackup.Core.Consent
import RustBackup.Core.Config
import RustBackup.Cli.Program
import RustBackup.Cli.Targets
import RustBackup.Cli.Approval
import RustBackup.Core.Accounting
import RustBackup.Core.Stubs
import RustBackup.Cli.Shipped
import RustBackup.Transport.Endpoint
