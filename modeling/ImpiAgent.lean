import ImpiAgent.Lib.Lts
import ImpiAgent.Lib.Table
import ImpiAgent.Lib.Dict
import ImpiAgent.Lib.Json
import ImpiAgent.Lib.Prog
import ImpiAgent.Lib.Text
import ImpiAgent.Lib.Markdown
import ImpiAgent.Lib.Pool
import ImpiAgent.Lib.Plan
import ImpiAgent.Store.Clock
import ImpiAgent.Store.Backend
import ImpiAgent.Tasks.Records
import ImpiAgent.Tasks.Statements
import ImpiAgent.Tasks.Calls
import ImpiAgent.Scheduler.Triggers
import ImpiAgent.Scheduler.Dispatch
import ImpiAgent.Tasks.System
import ImpiAgent.Tasks.Proof.Statements
import ImpiAgent.Tasks.Proof.Runs
import ImpiAgent.Tasks.Proof.Occurrence
import ImpiAgent.Tasks.Proof.Verdict
import ImpiAgent.Tasks.Proof.Ledger
import ImpiAgent.Tasks.Proof.Schedule
import ImpiAgent.Tasks.Proof.Accounts
import ImpiAgent.Tasks.Proof.Watches
import ImpiAgent.Fleet.System
import ImpiAgent.Fleet.Proof
import ImpiAgent.Delegation.Records
import ImpiAgent.Delegation.System
import ImpiAgent.Delegation.Transcript
import ImpiAgent.Delegation.Proof.Runs
import ImpiAgent.Delegation.Proof.Once
import ImpiAgent.Delegation.Proof.Lost
import ImpiAgent.Delegation.Proof.Told
import ImpiAgent.Delegation.InFlight
import ImpiAgent.Delegation.Proof.OneAtATime
import ImpiAgent.Delegation.Proof.Awaited
import ImpiAgent.Store.OneShot
import ImpiAgent.Store.Proof.OneShot
import ImpiAgent.Store.Leases
import ImpiAgent.Lib.Sha256
import ImpiAgent.Store.SessionIds
import ImpiAgent.Store.Addresses
import ImpiAgent.Store.Proof.Leases
import ImpiAgent.Store.Replicas
import ImpiAgent.Store.Proof.Replicas
import ImpiAgent.Gateways.Leased
import ImpiAgent.Gateways.LoopGuard
import ImpiAgent.Gateways.Chunks
import ImpiAgent.Gateways.Proof.Chunks
import ImpiAgent.Lib.Rewrite
import ImpiAgent.Gateways.Formatter
import ImpiAgent.Gateways.Proof.Formatter
import ImpiAgent.Gateways.Proof.Tables
import ImpiAgent.Gateways.Proof.Conversion
import ImpiAgent.Gateways.Rendering
import ImpiAgent.Gateways.Proof.Rendering
import ImpiAgent.Gateways.Proof.Leased
import ImpiAgent.Gateways.HttpTurns
import ImpiAgent.Gateways.Proof.HttpTurns
import ImpiAgent.Gateways.Proof.Journal
import ImpiAgent.Gateways.Internal
import ImpiAgent.Flows.Owned
import ImpiAgent.Flows.Proof.Once
import ImpiAgent.Flows.Turns
import ImpiAgent.Flows.CutShort
import ImpiAgent.Flows.Containment
import ImpiAgent.Flows.Fences
import ImpiAgent.Flows.Envelope
import ImpiAgent.Flows.Attachments
import ImpiAgent.Flows.Proof.Envelope
import ImpiAgent.Flows.Coalescer
import ImpiAgent.Flows.Proof.Coalescer
import ImpiAgent.Flows.Proof.Waiters
import ImpiAgent.Connections.Records
import ImpiAgent.Connections.System
import ImpiAgent.Connections.Proof.Steps
import ImpiAgent.Connections.Proof.Known
import ImpiAgent.Connections.Proof.Stale
import ImpiAgent.Connections.Proof.Single
import ImpiAgent.Approvals.Pending
import ImpiAgent.Ward.Policy
import ImpiAgent.Ward.Broker
import ImpiAgent.Ward.Proof.Ledger
import ImpiAgent.Ward.Proof.Calls
import ImpiAgent.Ward.Proof.Lease
import ImpiAgent.Ward.Proof.Window
import ImpiAgent.Ward.System
import ImpiAgent.Ward.Proof.Revocation
import ImpiAgent.Lib.Ascii
import ImpiAgent.Lib.Shlex
import ImpiAgent.Ward.Autorules
import ImpiAgent.Ward.Proof.Autorules
import ImpiAgent.Ward.PolicyForm
import ImpiAgent.Ward.Proof.PolicyForm
import ImpiAgent.Ward.Vault
import ImpiAgent.Ward.Proof.Vault
import ImpiAgent.Flows.CommandLine
import ImpiAgent.Tools.Wiring
import ImpiAgent.Tools.Proof.Wiring
import ImpiAgent.Tools.Server
import ImpiAgent.Tools.Proof.Gate
import ImpiAgent.Tools.Proof.Audit
import ImpiAgent.Approvals.Controls
import ImpiAgent.Gateways.Clicks
import ImpiAgent.Tools.Proof.Window
import ImpiAgent.Scheduler.Notices
import ImpiAgent.Scheduler.Proof.Notices
import ImpiAgent.Scheduler.Finish
import ImpiAgent.Scheduler.Proof.Finish
import ImpiAgent.Runtimes.Runtime
import ImpiAgent.Runtimes.Proof.Owners
import ImpiAgent.Runtimes.Proof.Permits
import ImpiAgent.Runtimes.Proof.Proofs
import ImpiAgent.Runtimes.Proof.Turning
import ImpiAgent.Runtimes.Proof.Droppers
import ImpiAgent.Runtimes.Session
import ImpiAgent.Runtimes.Proof.Session
import ImpiAgent.Runtimes.Proof.Answer
import ImpiAgent.Runtimes.Clocks
import ImpiAgent.Runtimes.Proof.Clocks
import ImpiAgent.Runtimes.Repeats
import ImpiAgent.Runtimes.Proof.Repeats
import ImpiAgent.Flows.Proof.Directories
import ImpiAgent.Interactions.Forms
import ImpiAgent.Interactions.Proof.Forms
import ImpiAgent.Interactions.Traces
import ImpiAgent.Interactions.Proof.Traces
import ImpiAgent.Interactions.UiBridge
import ImpiAgent.Interactions.Proof.UiBridge
import ImpiAgent.Relay.Browser
import ImpiAgent.Relay.Proof.Browser
import ImpiAgent.Gateways.Hub
import ImpiAgent.Gateways.Proof.Hub
import ImpiAgent.Lib.Tree
import ImpiAgent.Runtimes.Scopes
import ImpiAgent.Runtimes.Proof.Scopes
import ImpiAgent.Flows.Retention
import ImpiAgent.Flows.Proof.Retention
import ImpiAgent.Profiles.Reload
import ImpiAgent.Profiles.Proof.Reload
import ImpiAgent.Profiles.Entitled
import ImpiAgent.Profiles.Proof.Entitled
import ImpiAgent.Profiles.Allowlist
import ImpiAgent.Profiles.AgentYaml
import ImpiAgent.Profiles.Proof.AgentYaml
import ImpiAgent.Containers.Sync
import ImpiAgent.Containers.Proof.Sync
import ImpiAgent.Profiles.Proof.Allowlist
import ImpiAgent.Profiles.Proof.Shared
import ImpiAgent.Lib.Quote
import ImpiAgent.Flows.Received
import ImpiAgent.Flows.Proof.Received
import ImpiAgent.Lib.Posix
import ImpiAgent.Lib.Attempt
import ImpiAgent.Runtimes.Remote
import ImpiAgent.Runtimes.Proof.Frame
import ImpiAgent.Runtimes.Proof.Remote
import ImpiAgent.Scheduler.Proof.Ended
import ImpiAgent.Scheduler.Proof.Late
import ImpiAgent.Lib.Zone
import ImpiAgent.Scheduler.Local
import ImpiAgent.Scheduler.Proof.Local
import ImpiAgent.Lib.Monitor
import ImpiAgent.Mcp.Protocol
import ImpiAgent.Mcp.System
import ImpiAgent.Mcp.Proof.Careful
import ImpiAgent.Mcp.Proof.Once
import ImpiAgent.Lib.Beneath
import ImpiAgent.Lib.Decimal
import ImpiAgent.Confinement.Launcher
import ImpiAgent.Confinement.Proof.Launcher
import ImpiAgent.Confinement.Local
import ImpiAgent.Confinement.Proof.Local
import ImpiAgent.Containers.Seccomp
import ImpiAgent.Containers.Proof.Seccomp
import ImpiAgent.Lib.Agree
import ImpiAgent.Ward.Wire
import ImpiAgent.Ward.Proof.Wire
import ImpiAgent.Ward.Proof.SecretExec
import ImpiAgent.Ward.Proof.Door
