import Perpetua.Lib.Delimited
import Perpetua.Lib.Except
import Perpetua.Lib.OrderedDict
import Perpetua.Lib.FileTree
import Perpetua.Lib.HalfEven
import Perpetua.Lib.HashChain
import Perpetua.Lib.Machine
import Perpetua.Lib.HighWater
import Perpetua.Lib.IpAddress
import Perpetua.Lib.IpText
import Perpetua.Lib.IpNetwork
import Perpetua.Lib.Json
import Perpetua.Lib.JsonParser
import Perpetua.Lib.JsonRoundTrip
import Perpetua.Lib.JsonObjects
import Perpetua.Lib.JsonEquality
import Perpetua.Lib.JsonTorn
import Perpetua.Lib.PyText
import Perpetua.Lib.PyLines
import Perpetua.Lib.JsonLines
import Perpetua.Lib.Keyed
import Perpetua.Lib.Logged
import Perpetua.Lib.Occurrences
import Perpetua.Lib.Recency
import Perpetua.Lib.Polling
import Perpetua.Lib.PyNumber
import Perpetua.Lib.PyBytes
import Perpetua.Lib.PyReal
import Perpetua.Lib.Ranking
import Perpetua.Lib.Regex
import Perpetua.Lib.RegexSub
import Perpetua.Lib.RegexCover
import Perpetua.Lib.Retry
import Perpetua.Lib.Sha256
import Perpetua.Lib.StrictJson
import Perpetua.Lib.Substitution
import Perpetua.Membership
import Perpetua.Membership.Codec
import Perpetua.Membership.CodecTheorems
import Perpetua.Membership.PeerRecord
import Perpetua.Membership.ConfidenceTheorems
import Perpetua.Membership.MonotonicGate
import Perpetua.Membership.Printed
import Perpetua.Membership.RecordTheorems
import Perpetua.Redaction
import Perpetua.Redaction.TextTheorems
import Perpetua.Sqlite
import Perpetua.GossipBus
import Perpetua.Queue.Board
import Perpetua.Queue.Lifecycle
import Perpetua.Queue.Lemmas.Snapshots
import Perpetua.Queue.Lemmas.Events
import Perpetua.Queue.Lemmas.Effects
import Perpetua.Queue.Lemmas.Invariants
import Perpetua.Queue.Theorems
import Perpetua.Queue.DependencyTheorems
import Perpetua.Queue.Lemmas.Fields
import Perpetua.Queue.RoundTripTheorems
import Perpetua.Queue.ClaimableTheorems
import Perpetua.Queue.Lemmas.Retries
import Perpetua.Queue.RetryTheorems
import Perpetua.Heartbeat.Monitor
import Perpetua.Heartbeat.Posts
import Perpetua.Heartbeat.Theorems
import Perpetua.Heartbeat.LivenessTheorems
import Perpetua.Handoff.Admission
import Perpetua.Handoff.Theorems
import Perpetua.Audit.Log
import Perpetua.Audit.Lemmas.Replay
import Perpetua.Audit.Lemmas.Chain
import Perpetua.Audit.Lemmas.Anchor
import Perpetua.Audit.Theorems
import Perpetua.Budget.Ledger
import Perpetua.Budget.Execution
import Perpetua.Budget.Lemmas.Lifecycle
import Perpetua.Budget.Lemmas.Effects
import Perpetua.Budget.Lemmas.Invariants
import Perpetua.Budget.Lemmas.Markers
import Perpetua.Budget.Lemmas.Exclusion
import Perpetua.Budget.Theorems
import Perpetua.Gate.Policy
import Perpetua.Pipeline.Config
import Perpetua.Pipeline.Runner
import Perpetua.Pipeline.Transport
import Perpetua.Gate.Endpoint
import Perpetua.Gate.Router
import Perpetua.Gate.Lemmas.Routes
import Perpetua.Gate.Theorems
import Perpetua.Pipeline.Lemmas.Loader
import Perpetua.Pipeline.Lemmas.Protocol
import Perpetua.Pipeline.Lemmas.Order
import Perpetua.Pipeline.Lemmas.Run
import Perpetua.Pipeline.Theorems
import Perpetua.Pipeline.TransportTheorems
import Perpetua.Transition.DistanceBucket
import Perpetua.Transition.Equivocation
import Perpetua.Transition.Reputation
import Perpetua.Transition.WitnessQuorum
import Perpetua.Transition.Manager
import Perpetua.Transition.DistanceTheorems
import Perpetua.Transition.EquivocationTheorems
import Perpetua.Transition.Lemmas.Effects
import Perpetua.Transition.Lemmas.Buffers
import Perpetua.Transition.Lemmas.Rounds
import Perpetua.Transition.Lemmas.Delivery
import Perpetua.Transition.Lemmas.Order
import Perpetua.Transition.Lemmas.Waiting
import Perpetua.Transition.Theorems
import Perpetua.Transition.BoundTheorems
import Perpetua.Transition.Lemmas.Decisions
import Perpetua.Transition.DecisionTheorems
import Perpetua.Transition.Lemmas.Reassembly
import Perpetua.Transition.FailureTheorems
import Perpetua.Transition.Provenance
import Perpetua.Transition.ProvenanceTheorems
import Perpetua.Transition.QuorumTheorems
import Perpetua.Transition.ReassemblyTheorems
import Perpetua.Transition.ReputationTheorems
import Perpetua.Transition.RetryTheorems
import Perpetua.Connectivity.CloudProbe
import Perpetua.Connectivity.CloudTheorems
import Perpetua.Coordination.BiasDetector
import Perpetua.Coordination.BiasTheorems
import Perpetua.Coordination.Phases
import Perpetua.Coordination.CriticalPath
import Perpetua.Coordination.CriticalPathTheorems
import Perpetua.Coordination.ReorderBuffer
import Perpetua.Coordination.Lemmas.Buffers
import Perpetua.Coordination.EmissionTheorems
import Perpetua.Coordination.Lemmas.Phases
import Perpetua.Coordination.PhaseTheorems
import Perpetua.Coordination.PhaseRaces
import Perpetua.Topology.Hygiene
import Perpetua.Coordination.ProducerId
import Perpetua.Coordination.ProducerTheorems
import Perpetua.Coordination.ReorderTheorems
import Perpetua.Egress.Checkers
import Perpetua.Egress.PinnedAdapter
import Perpetua.Egress.Theorems
import Perpetua.Egress.CredentialTheorems
import Perpetua.Envelope.HandoffPacket
import Perpetua.Envelope.Standard
import Perpetua.Envelope.Theorems
import Perpetua.Gossip.LanBridge
import Perpetua.Gossip.PayloadTheorems
import Perpetua.Gossip.Theorems
import Perpetua.Governance.Policy
import Perpetua.Governance.Lemmas.Checks
import Perpetua.Governance.Lemmas.Plans
import Perpetua.Governance.Theorems
import Perpetua.Grant.Ledger
import Perpetua.Grant.Verify
import Perpetua.Grant.Append
import Perpetua.Grant.LedgerFile
import Perpetua.Grant.Mint
import Perpetua.Grant.Theorems
import Perpetua.Grant.MintTheorems
import Perpetua.Memory.RankFusion
import Perpetua.Memory.RankFusionTheorems
import Perpetua.Mesh.Dotenv
import Perpetua.Mesh.DotenvTheorems
import Perpetua.Orchestrate.CostGuard
import Perpetua.Orchestrate.CostGuardTheorems
import Perpetua.Orchestrate.Tracker
import Perpetua.Orchestrate.Endpoint
import Perpetua.Orchestrate.Registry
import Perpetua.Orchestrate.Theorems
import Perpetua.Orchestrate.RegistryTheorems
import Perpetua.Orchestrate.RecruitTheorems
import Perpetua.PathBoundary.LogText
import Perpetua.PathBoundary.AllowedPath
import Perpetua.PathBoundary.LogTextTheorems
import Perpetua.Session.AuditLog
import Perpetua.Session.AuditLogTheorems
import Perpetua.Supervisor.Dispatch
import Perpetua.Supervisor.DispatchTheorems
import Perpetua.Supervisor.Jobs
import Perpetua.Supervisor.JobsLog
import Perpetua.Supervisor.Pool
import Perpetua.Supervisor.TerminalTheorems
import Perpetua.Supervisor.PoolTheorems
import Perpetua.Supervisor.RecoveryTheorems
import Perpetua.Tls.Certificates
import Perpetua.Tls.AlphaClaw
import Perpetua.Tls.Lemmas.SelfSigned
import Perpetua.Tls.PinTheorems
import Perpetua.Tls.CrashTheorems
import Perpetua.Tls.Pki
import Perpetua.Tls.PkiTheorems
import Perpetua.Tls.RequestBody
import Perpetua.Tls.RequestBodyTheorems
import Perpetua.Tls.ReuseTheorems
import Perpetua.Tls.Telemetry
import Perpetua.Tls.TelemetryTheorems
import Perpetua.Topology.Fragments
import Perpetua.Topology.ShapeTheorems
import Perpetua.Topology.StableTheorems
