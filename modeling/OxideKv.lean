import OxideKv.Protocol
import OxideKv.StateMachine.Model
import OxideKv.Lib.LastWrite
import OxideKv.StateMachine.Contents
import OxideKv.StateMachine.Operations
import OxideKv.StateMachine.Reads
import OxideKv.Raft.Storage
import OxideKv.Raft.Node
import OxideKv.Raft.Handlers
import OxideKv.Lib.Run
import OxideKv.Raft.Steps
import OxideKv.Raft.Frame
import OxideKv.Raft.TermVote
import OxideKv.Raft.DurableLog
import OxideKv.Raft.Indices
import OxideKv.Raft.Effect
import OxideKv.Raft.SnapshotSuffix
import OxideKv.Lib.Quorum
import OxideKv.Lib.ReplicatedLog
import OxideKv.Lib.Chosen
import OxideKv.Raft.Provenance
import OxideKv.Raft.Cluster
import OxideKv.Raft.Plain
import OxideKv.Raft.Ballots
import OxideKv.Raft.ElectionSafety
import OxideKv.Raft.Replication
import OxideKv.Raft.LogRelation
import OxideKv.Raft.Stores
import OxideKv.Raft.StateMachineSafety
import OxideKv.Raft.Configurations
import OxideKv.Raft.MembershipChange
import OxideKv.Raft.JointExit
import OxideKv.Raft.CommitQuorum
import OxideKv.Raft.ReadIndex
import OxideKv.Raft.Restart
import OxideKv.Raft.ClientWrites
import OxideKv.Raft.LinearizableGet
import OxideKv.Raft.Coordinator
import OxideKv.Raft.Applying
import OxideKv.Raft.TxSteps
import OxideKv.Raft.TxOutcome
import OxideKv.Raft.FastForward
import OxideKv.Raft.ReferenceModel
import OxideKv.Raft.Replay
import OxideKv.Raft.ElectionState
import OxideKv.StateMachine.FileSteps
import OxideKv.StateMachine.CrashSafety
import OxideKv.Raft.SnapshotDelivery
import OxideKv.Raft.QuorumIntersection
import OxideKv.Raft.ElectionTimer
import OxideKv.Raft.Probes
import OxideKv.Raft.PreVote
import OxideKv.Raft.LiveMajority
import OxideKv.Raft.CommitRule
import OxideKv.Raft.LogMatching
import OxideKv.Raft.Redelivery
import OxideKv.StateMachine.FaultyStore
import OxideKv.Raft.FailedWrites
import OxideKv.Lib.ByteReader
import OxideKv.Raft.WalBytes
import OxideKv.Lib.Lines
import OxideKv.StateMachine.WalLines
import OxideKv.StateMachine.LeftBehind
import OxideKv.Raft.OwnEntry
import OxideKv.Lib.Proto3
import OxideKv.Raft.Transport
import OxideKv.Raft.Wire
import OxideKv.Raft.Prost
import OxideKv.Raft.Backlog
import OxideKv.StateMachine.Unreadable
import OxideKv.Raft.TxVotes
import OxideKv.Raft.ProbeRounds
import OxideKv.Raft.SyncGaps
import OxideKv.Raft.CheckedArithmetic
import OxideKv.Raft.MembershipReply
import OxideKv.Lib.FirstFailure
import OxideKv.Raft.Invariants
import OxideKv.Raft.LogCommands
import OxideKv.Raft.InvariantRuns
import OxideKv.Raft.CrossCheck
import OxideKv.Raft.Rpc
import OxideKv.Raft.WireCluster
import OxideKv.Raft.TxTimeout
import OxideKv.Raft.SimTransport
import OxideKv.Raft.SimRuns
import OxideKv.Client.Json
import OxideKv.Client.Protocol
import OxideKv.Client.Sdk
import OxideKv.Client.Dispatch
import OxideKv.Client.Session
