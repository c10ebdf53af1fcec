import OxideKv.Lib.Run
import OxideKv.Raft.Handlers

/-!
# The steps of one node

`NodeEvent` lists the calls that write a node while the process lives: the
RPC handlers, the processing of replies, the timers and the client calls.
The content of a message, of a reply and of a captured round is arbitrary
here, so a run of `step` covers what any peers and any order of deliveries can
do to the node.  `LifeEvent` adds the crash and the start of the process.

The lemmas say what the calls below the handlers leave alone.
-/

namespace OxideKv

open Fallible

/-- A call that holds the write lock of the node. -/
inductive NodeEvent where
  | propose (command : Command)
  | proposeBatch (commands : List Command)
  | proposeAddNode (server : ServerId)
  | proposeRemoveNode (nodeId : String)
  | proposeAbortTx (txId : String)
  | requestVote (clock : Clock) (args : RequestVoteArgs)
  | preVote (clock : Clock) (args : RequestVoteArgs)
  | txVoteRequest (clock : Clock) (req : VoteRequest)
  | appendEntries (clock : Clock) (args : AppendEntriesArgs)
  | installSnapshot (clock : Clock) (args : InstallSnapshotArgs)
  | becomeCandidate (clock : Clock)
  | enterPreVote (probedTerm : Nat)
  | preVoteAlone (clock : Clock)
  | preVoteStale
  | preVoteQuorum (clock : Clock)
  | voteQuorum (clock : Clock) (term : Nat)
  | voteRefused (term : Nat) (reply : VoteResponseArgs)
  | coordinatorStepDown (leaderTerm : Nat) (resp : VoteResponse)
  | syncAlone (clock : Clock)
  | appendReply (clock : Clock) (peer : String) (args : AppendEntriesArgs)
      (reply : AppendReplyArgs)
  | maybeSnapshot (thresholdBytes : Nat)

/-- The call appends an entry of its own to the log of a leader. -/
def NodeEvent.IsProposal : NodeEvent → Bool
  | .propose _ | .proposeBatch _ | .proposeAddNode _ | .proposeRemoveNode _
  | .proposeAbortTx _ => true
  | _ => false

/-- The call is about votes, probes and terms only. -/
def NodeEvent.MovesRole : NodeEvent → Bool
  | .requestVote _ _ | .preVote _ _ | .becomeCandidate _ | .enterPreVote _ | .preVoteAlone _
  | .preVoteStale | .preVoteQuorum _ | .voteQuorum _ _ | .voteRefused _ _
  | .coordinatorStepDown _ _ => true
  | _ => false

namespace RaftNode

/-- The node after a call. -/
def step (n : RaftNode) : NodeEvent → Option RaftNode
  | .propose command => some (propose command n).2
  | .proposeBatch commands => some (proposeBatch commands n).2
  | .proposeAddNode server => some (proposeAddNode server n).2
  | .proposeRemoveNode nodeId => some (proposeRemoveNode nodeId n).2
  | .proposeAbortTx txId => some (proposeAbortTx txId n).2
  | .requestVote clock args => some (handleRequestVote clock args n).2
  | .preVote clock args => some (handlePreVote clock args n).2
  | .txVoteRequest clock req => some (handleTxVoteRequest clock req n).2
  | .appendEntries clock args => some (handleAppendEntries clock args n).2
  | .installSnapshot clock args => (handleInstallSnapshot clock args n).map Prod.snd
  | .becomeCandidate clock => some (promoteToCandidate clock n)
  | .enterPreVote probedTerm => some (enterPreVote probedTerm n).2
  | .preVoteAlone clock => some (preVoteAlone clock n)
  | .preVoteStale => some (preVoteStale n)
  | .preVoteQuorum clock => some (preVoteQuorum clock n).2
  | .voteQuorum clock term => some (voteQuorum clock term n)
  | .voteRefused term reply => some (voteRefused term reply n)
  | .coordinatorStepDown leaderTerm resp => some (coordinatorStepDown leaderTerm resp n)
  | .syncAlone clock => some (syncAlone clock n)
  | .appendReply clock peer args reply => some (appendReply clock peer args reply n)
  | .maybeSnapshot thresholdBytes => (maybeSnapshot thresholdBytes n).map Prod.snd

end RaftNode

/-- The clock of runs on fixed inputs. -/
def someClock : Clock := { now := 0, unixMs := fun _ => 0 }

/-- A call, or a crash with the start that follows it. -/
inductive LifeEvent where
  | call (e : NodeEvent)
  | restart (peers : List String) (clock : Clock)

namespace RaftNode

/-- The store that `StateMachine::open` makes of an empty directory, with the
threshold of `main`. -/
def freshStore : StateMachine :=
  { memtableSizeThreshold := 4 * 1024 * 1024
    memtable := ∅
    memtableBytes := 0
    sstables := []
    nextSstId := 0
    pendingTxs := ∅
    disk := Disk.empty }

theorem openStore_eq_freshStore :
    StateMachine.openStore (4 * 1024 * 1024) Disk.empty = .ok freshStore := rfl

/-- The first start of a node, on an empty directory. -/
def freshNode (raftAddr : String) (peers : List String) : RaftNode :=
  new raftAddr peers freshStore RaftStorage.empty { now := 0, unixMs := fun _ => 0 }

/-- The node after a call or after a restart.  The process comes back under
the address it had. -/
def lifeStep (n : RaftNode) : LifeEvent → Option RaftNode
  | .call e => n.step e
  | .restart peers clock => restart n.nodeId peers clock n

end RaftNode

end OxideKv
