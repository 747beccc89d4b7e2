import Switchboard.Text.Blank
import Switchboard.Text.Quoted
import Switchboard.Text.Utf8
import Switchboard.Text.Search
import Switchboard.Number.Shortest
import Switchboard.Duration
import Switchboard.Json.Printer
import Switchboard.Json.Reader
import Switchboard.Topology.Reader
import Switchboard.Http.Method
import Switchboard.Http.Headers
import Switchboard.Credentials
import Switchboard.Settings.Expansion
import Switchboard.EventStream.Framing
import Switchboard.EventStream.Frame
import Switchboard.Reconnect.Backoff
import Switchboard.Promise.Machine
import Switchboard.Promise.Work
import Switchboard.Script.Run
import Switchboard.Client.Scenario
import Switchboard.Text.Base64
import Switchboard.Http.Status
import Switchboard.Http.Field
import Switchboard.Http.Url
import Switchboard.Http.Outgoing
import Switchboard.Http.Connection
import Switchboard.Push.Error
import Switchboard.Push.Subscription
import Switchboard.Client.Network
import Switchboard.Toml.Basic
import Switchboard.Toml.Token
import Switchboard.Toml.Scalar
import Switchboard.Toml.Table
import Switchboard.Toml.Reader
import Switchboard.Settings.Reader
import Switchboard.Settings.File
import Switchboard.CommandLine.Usage
import Switchboard.Main
import Switchboard.Proofs.Promise.Authority
import Switchboard.Proofs.Promise.Delivery
import Switchboard.Proofs.Promise.Adoption
import Switchboard.Proofs.Promise.Confluence
import Switchboard.Proofs.Script.Session
import Switchboard.Proofs.EventStream.Boundary
import Switchboard.Proofs.EventStream.Draining
import Switchboard.Proofs.Text.Utf8
import Switchboard.Proofs.Push.Chunking
import Switchboard.Proofs.EventStream.Lines
import Switchboard.Proofs.Push.LineReader
import Switchboard.Proofs.Push.History
import Switchboard.Proofs.Client.Moves
import Switchboard.Proofs.Client.Session
import Switchboard.Proofs.Client.Lifecycle
import Switchboard.Proofs.Client.Draining
import Switchboard.Proofs.Client.Scenario
import Switchboard.Proofs.Promise.Timing
import Switchboard.Proofs.Script.Ending
import Switchboard.Proofs.Client.Topology
import Switchboard.Proofs.Push.Resumption
import Switchboard.Proofs.Text.Order
import Switchboard.Proofs.Http.Headers
import Switchboard.Proofs.Client.Ownership
import Switchboard.Proofs.Client.Fields
import Switchboard.Proofs.Client.Observers
import Switchboard.Proofs.Json.Printing
import Switchboard.Proofs.Topology.Format
import Switchboard.Proofs.Topology.RoundTrip
import Switchboard.Proofs.Client.Echo
import Switchboard.Proofs.Promise.Callbacks
import Switchboard.Proofs.Promise.Chain
import Switchboard.Proofs.Number.Rounding
import Switchboard.Proofs.Reconnect.RetryAfter
import Switchboard.Proofs.Reconnect.Backoff
import Switchboard.Proofs.Push.Waiting
import Switchboard.Proofs.Promise.Looks
import Switchboard.Proofs.Promise.Awaiting
import Switchboard.Proofs.Promise.Laws
import Switchboard.Proofs.Text.Search
import Switchboard.Proofs.EventStream.Fields
import Switchboard.Proofs.Settings.Expansion
import Switchboard.Proofs.Client.Destination
import Switchboard.Proofs.Http.Overlay
import Switchboard.Proofs.Text.Spelling
import Switchboard.Proofs.Text.Lossy
import Switchboard.Proofs.Http.ErrorBody
