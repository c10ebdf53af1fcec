import OxideKv.Raft.Cluster

/-!
# The coordinator of a transaction

`coordinate_tx` of `coordinator.rs` on a node.  `TxPhase` is where a call waits:
for the lock of the node, for the next turn of a polling loop or for the vote
of a peer.  `TxCall.resume` is the critical section that it runs when it gets
the lock.  The elapsed time enters as the flag `expired` of a polling loop.

The outer timeout drops the inner future where it awaits: between two turns of
a polling loop or while a vote is outstanding.

* The call: its phases and their critical sections.
* `TxCluster`: the calls of a cluster, their vote requests and the replies.
-/

namespace OxideKv

open Fallible RaftNode

inductive TxOutcome where
  | committed (beginIndex decideIndex : Nat) (txId : String)
  | aborted (txId reason : String)
  | notLeader (txId : String)
deriving Repr, DecidableEq

/-- What the coordinator reads off the node before it asks for votes, with the
index of the `BeginTx`. -/
structure TxRound where
  leaderTerm : Nat
  peerAddrs : List String
  leaderId : String
  beginIndex : Nat
  beginLogTerm : Nat
deriving Repr, DecidableEq

/-- The result of the task that asks a peer, under the address it reports. -/
abbrev VoteResult := String × Except String VoteResponse

inductive TxPhase where
  /-- Before `single_node_fast_path` proposes. -/
  | proposeBatch
  /-- The loop of `propose_batch_and_wait_for_apply`. -/
  | waitBatch (firstIndex : Nat) (polled : Bool)
  | proposeBegin
  /-- The loop of `propose_and_wait_for_apply` on the `BeginTx`. -/
  | waitBegin (index : Nat) (polled : Bool)
  /-- The loop of `wait_for_replication`. -/
  | waitReplication (beginIndex : Nat) (polled : Bool)
  /-- Before the read of the node that makes the round. -/
  | readRound (beginIndex : Nat)
  /-- Before the own vote is recorded. -/
  | recordOwn (round : TxRound)
  /-- The votes that are in, in the order of the peers. -/
  | collect (round : TxRound) (results : List VoteResult)
  /-- The loop of step 4 before the results `rest`. -/
  | tally (round : TxRound) (rest : List VoteResult) (yesVoters : List String)
      (abortReason : Option String)
  /-- The loop of `propose_and_wait_for_apply` on the `DecideTx`. -/
  | waitDecide (round : TxRound) (decision : TxDecision) (abortReason : Option String)
      (index : Nat) (polled : Bool)
  | done (outcome : TxOutcome)
  /-- The process has crashed. -/
  | gone
deriving DecidableEq

/-- A call of `coordinate_tx` on `node`, with the entries it has put into the
log. -/
structure TxCall where
  node : String
  txId : String
  ops : List TxOp
  phase : TxPhase
  proposed : List LogEntry
deriving DecidableEq

/-! ## Polling -/

inductive Poll where
  | ready
  | failed (reason : String)
  | pending

/-- `{:?}` of a role. -/
def NodeState.debug : NodeState → String
  | .follower => "Follower"
  | .candidate => "Candidate"
  | .leader => "Leader"
  | .preCandidate => "PreCandidate"

namespace RaftNode

/-- One turn of the loops that wait for `index` to be applied.  The two loops
differ in the text of the timeout, and the callers drop it. -/
def pollApply (what : String) (index : Nat) (expired : Bool) (n : RaftNode) : Poll :=
  if n.state ≠ .leader then .failed s!"stepped down to {NodeState.debug n.state} mid-commit"
  else if index ≤ n.commitIndex ∧ index ≤ n.lastApplied then .ready
  else if expired then
    .failed s!"timed out waiting for {what} {index} to apply (commit={n.commitIndex}, applied={n.lastApplied})"
  else .pending

/-- `{:?}` of the snapshot of `match_index`. -/
def debugIndices (indices : List (String × Nat)) : String :=
  "[" ++ ", ".intercalate (indices.map fun p => "(" ++ reprStr p.1 ++ s!", {p.2})") ++ "]"

/-- One turn of the loop of `wait_for_replication`. -/
def pollReplication (index : Nat) (expired : Bool) (n : RaftNode) : Poll :=
  if n.state ≠ .leader then
    .failed s!"stepped down to {NodeState.debug n.state} during replication wait"
  else if n.peers.all (fun p => decide (index ≤ n.matchIndexFor p)) then .ready
  else if expired then
    .failed (s!"timed out waiting for index {index} to replicate to all peers (current: " ++
      debugIndices (n.peers.map fun p => (p, n.matchIndexFor p)) ++ ")")
  else .pending

/-- The read of the node before the votes are asked for.  The role is not
looked at. -/
def txRound (beginIndex : Nat) (n : RaftNode) : TxRound :=
  { leaderTerm := n.currentTerm
    peerAddrs := n.peers
    leaderId := n.nodeId
    beginIndex := beginIndex
    beginLogTerm :=
      if beginIndex = 0 then n.currentTerm
      else ((n.log[beginIndex - 1]?).map LogEntry.term).getD n.currentTerm }

/-- `record_vote` on the state machine of the node, with the result dropped. -/
def recordYes (txId voter : String) (n : RaftNode) : RaftNode :=
  { n with stateMachine := (StateMachine.recordVote txId voter .yes n.stateMachine).2 }

end RaftNode

/-! ## The call -/

namespace TxRound

/-- The request that every peer gets. -/
def request (txId : String) (round : TxRound) : VoteRequest :=
  { term := round.leaderTerm
    txId := txId
    lastLogIndex := round.beginIndex
    lastLogTerm := round.beginLogTerm }

/-- The voters that a commit needs. -/
def expectedVoters (round : TxRound) : List String := round.leaderId :: round.peerAddrs

/-- The decision of step 5.  The two sets of voters are compared as sets. -/
def decision (round : TxRound) (yesVoters : List String) (abortReason : Option String) :
    TxDecision :=
  if abortReason.isSome ||
      !(yesVoters.all (· ∈ round.expectedVoters) && round.expectedVoters.all (· ∈ yesVoters)) then
    .abort
  else .commit

/-- With the result of the last peer the loop of step 4 begins. -/
def collected (round : TxRound) (results : List VoteResult) : TxPhase :=
  if results.length < round.peerAddrs.length then .collect round results
  else .tally round results [round.leaderId] none

end TxRound

/-- The reason of a vote that was not granted. -/
def declineReason (addr : String) (resp : VoteResponse) : String :=
  if resp.reason.isEmpty then s!"peer {addr} declined vote"
  else s!"peer {addr} declined vote: {resp.reason}"

/-- What a call does with the lock: the node it leaves, its next phase, the
entries it has put into the log, whether it calls `sync_logs` and the round of
votes that it asks for. -/
structure TxTurn where
  node : RaftNode
  phase : TxPhase
  proposed : List LogEntry := []
  sync : Bool := false
  round : Option TxRound := none

/-- The write lock of `propose_and_wait_for_apply` and of its batch form.  `r`
is the result of the proposal on `n`; a rejected one ends the call. -/
def TxTurn.ofPropose (n : RaftNode) (r : Bool × RaftNode) (txId : String)
    (next : RaftNode → TxPhase) : TxTurn :=
  { node := r.2
    phase := if r.1 then next r.2 else .done (.notLeader txId)
    proposed := r.2.log.drop n.log.length
    sync := r.1 }

/-- A turn of a polling loop. -/
def TxTurn.ofPoll (n : RaftNode) (poll : Poll) (ready : TxPhase) (failed : String → TxPhase)
    (pending : TxPhase) : TxTurn :=
  { node := n
    phase :=
      match poll with
      | .ready => ready
      | .failed reason => failed reason
      | .pending => pending }

/-- The outcome once the `DecideTx` at `decideIndex` is applied. -/
def TxRound.outcome (round : TxRound) (txId : String) (abortReason : Option String)
    (decideIndex : Nat) : TxDecision → TxOutcome
  | .commit => .committed round.beginIndex decideIndex txId
  | .abort => .aborted txId (abortReason.getD "incomplete vote set")

/-- Step 0: a node without peers takes the fast path. -/
def TxCall.begin (p txId : String) (ops : List TxOp) (n : RaftNode) : TxCall :=
  { node := p
    txId := txId
    ops := ops
    phase := if n.peers.isEmpty then .proposeBatch else .proposeBegin
    proposed := [] }

/-- The next critical section of a call.  `none` where the call does not wait
for the lock. -/
def TxCall.resume (expired : Bool) (n : RaftNode) (c : TxCall) : Option TxTurn :=
  match c.phase with
  | .proposeBatch =>
      some (.ofPropose n (n.proposeBatch [.beginTx c.txId c.ops, .decideTx c.txId .commit]) c.txId
        fun n' => .waitBatch (n'.log.length - 2 + 1) false)
  | .waitBatch firstIndex _ =>
      -- the `BeginTx` is waited for, not the `DecideTx` behind it
      some (.ofPoll n (n.pollApply "batch first index" firstIndex expired)
        (.done (.committed firstIndex (firstIndex + 1) c.txId))
        (fun _ => .done (.notLeader c.txId)) (.waitBatch firstIndex true))
  | .proposeBegin =>
      some (.ofPropose n (n.propose (.beginTx c.txId c.ops)) c.txId
        fun n' => .waitBegin n'.log.length false)
  | .waitBegin index _ =>
      some (.ofPoll n (n.pollApply "index" index expired) (.waitReplication index false)
        (fun _ => .done (.notLeader c.txId)) (.waitBegin index true))
  | .waitReplication beginIndex _ =>
      some (.ofPoll n (n.pollReplication beginIndex expired) (.readRound beginIndex)
        (fun reason => .done (.aborted c.txId s!"replication failed: {reason}"))
        (.waitReplication beginIndex true))
  | .readRound beginIndex => some { node := n, phase := .recordOwn (n.txRound beginIndex) }
  | .recordOwn round =>
      some
        { node := n.recordYes c.txId round.leaderId
          phase := round.collected []
          round := some round }
  | .tally round ((addr, .ok resp) :: rest) yesVoters abortReason =>
      if round.leaderTerm < resp.term then
        some
          { node := n.coordinatorStepDown round.leaderTerm resp
            phase := .done (.notLeader c.txId) }
      else if resp.voteGranted then
        some
          { node := n.recordYes c.txId addr
            phase := .tally round rest (yesVoters ++ [addr]) abortReason }
      else
        some
          { node := n
            phase := .tally round rest yesVoters (some (declineReason addr resp)) }
  | .tally round ((addr, .error e) :: rest) yesVoters _ =>
      some
        { node := n
          phase := .tally round rest yesVoters
            (some s!"peer {addr} vote RPC failed: {e} (treated as No)") }
  | .tally round [] yesVoters abortReason =>
      let decision := round.decision yesVoters abortReason
      some (.ofPropose n (n.propose (.decideTx c.txId decision)) c.txId
        fun n' => .waitDecide round decision abortReason n'.log.length false)
  | .waitDecide round decision abortReason index _ =>
      some (.ofPoll n (n.pollApply "index" index expired)
        (.done (round.outcome c.txId abortReason index decision))
        (fun _ => .done (.notLeader c.txId)) (.waitDecide round decision abortReason index true))
  | .collect _ _ | .done _ | .gone => none

/-- The call awaits a timer or a vote, so the outer timeout can drop it. -/
def TxPhase.awaits : TxPhase → Bool
  | .waitBatch _ polled | .waitBegin _ polled | .waitReplication _ polled
  | .waitDecide _ _ _ _ polled => polled
  | .collect _ _ => true
  | _ => false

/-! ## The calls of a cluster -/

/-- A vote request of the call `call`, with the log of the coordinator when it
was sent. -/
structure VoteRpc where
  call : Nat
  dst : String
  req : VoteRequest
  log : List LogEntry

/-- How the task that asks a peer can fail. -/
inductive VoteFailure where
  | transport (e : String)
  | timedOut
  | panicked (e : String)

def VoteFailure.result (addr : String) : VoteFailure → VoteResult
  | .transport e => (addr, .error s!"vote transport error: {e}")
  | .timedOut => (addr, .error "vote RPC timed out after 2000ms")
  | .panicked e => ("<unknown peer>", .error s!"vote task panicked: {e}")

structure TxCluster where
  base : Cluster
  calls : List TxCall
  votes : List VoteRpc
  /-- The replies on the way, each with the number of its request. -/
  replies : List (Nat × VoteResponse)

inductive TxEvent where
  /-- A step of the cluster, among them the client calls and `AbortTx`. -/
  | base (e : Event)
  | coordinateTx (p : String) (txId : String) (ops : List TxOp)
  /-- The call `k` gets the lock of its node. -/
  | resume (k : Nat) (expired : Bool)
  /-- The call `k` gets the vote of the next peer, the reply `j`. -/
  | vote (k j : Nat)
  | voteFailed (k : Nat) (failure : VoteFailure)
  /-- The outer timeout of the call `k`. -/
  | cancel (k : Nat)
  /-- The vote request `i` is handled. -/
  | deliver (i : Nat) (clock : Clock)

namespace TxCluster

def setCall (k : Nat) (c : TxCall) (s : TxCluster) : TxCluster :=
  { s with calls := s.calls.set k c }

/-- A crash takes the calls of the node down. -/
def dropCalls (e : Event) (calls : List TxCall) : List TxCall :=
  match e with
  | .restart p _ => calls.map fun c => if c.node = p then { c with phase := .gone } else c
  | _ => calls

/-- The requests of a round. -/
def voteRpcs (k : Nat) (txId : String) (log : List LogEntry) (round : TxRound) : List VoteRpc :=
  round.peerAddrs.map fun q => { call := k, dst := q, req := round.request txId, log := log }

/-- What the call `k` has done while it held the lock. -/
def finish (k : Nat) (c : TxCall) (turn : TxTurn) (s : TxCluster) : TxCluster :=
  { s with
    base := (s.base.setNode c.node turn.node).addCalls c.node
      (if turn.sync then [.syncLogs] else [])
    calls := s.calls.set k
      { c with phase := turn.phase, proposed := c.proposed ++ turn.proposed }
    votes := s.votes ++ (turn.round.map (voteRpcs k c.txId turn.node.log)).getD [] }

/-- The call `c` gets a result for the peer it waits for. -/
def collect (k : Nat) (c : TxCall) (result : VoteResult) (round : TxRound)
    (results : List VoteResult) (s : TxCluster) : TxCluster :=
  s.setCall k { c with phase := round.collected (results ++ [result]) }

def step (m : Membership) (s : TxCluster) : TxEvent → Option TxCluster
  | .base e =>
      (s.base.step m e).map fun base => { s with base := base, calls := dropCalls e s.calls }
  | .coordinateTx p txId ops =>
      if p ∈ m.members then
        some { s with calls := s.calls ++ [.begin p txId ops (s.base.nodes p)] }
      else none
  | .resume k expired =>
      (s.calls[k]?).bind fun c =>
        (c.resume expired (s.base.nodes c.node)).map fun turn => s.finish k c turn
  | .vote k j =>
      (s.calls[k]?).bind fun c =>
        (s.replies[j]?).bind fun r =>
          (s.votes[r.1]?).bind fun rpc =>
            match c.phase with
            | .collect round results =>
                if rpc.call = k ∧ round.peerAddrs[results.length]? = some rpc.dst then
                  some (s.collect k c (rpc.dst, .ok r.2) round results)
                else none
            | _ => none
  | .voteFailed k failure =>
      (s.calls[k]?).bind fun c =>
        match c.phase with
        | .collect round results =>
            (round.peerAddrs[results.length]?).map fun addr =>
              s.collect k c (failure.result addr) round results
        | _ => none
  | .cancel k =>
      (s.calls[k]?).bind fun c =>
        if c.phase.awaits then
          some (s.setCall k
            { c with
              phase := .done
                (.aborted c.txId "coordinator round exceeded 10s wall-clock bound") })
        else none
  | .deliver i clock =>
      (s.votes[i]?).map fun rpc =>
        let handled := handleTxVoteRequest clock rpc.req (s.base.nodes rpc.dst)
        { s with
          base := s.base.setNode rpc.dst handled.2
          replies := s.replies ++ [(i, handled.1)] }

def start (m : Membership) : TxCluster :=
  { base := Cluster.start m, calls := [], votes := [], replies := [] }

end TxCluster

end OxideKv
