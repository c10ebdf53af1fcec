import OxideKv.Raft.Node

/-!
# RPC handlers and reply handlers of a node

The handlers of `node.rs` that answer a peer, the closures that process a
peer's reply, and the steps of an election.

A method that releases the lock of the node between two reads is cut at that
place.  `request_votes` reads the node once (`voteRound`) and its replies are
processed later (`voteQuorum`, `voteRefused`).  `become_pre_candidate` reads
the node (`preVoteRound`) and then takes the write lock (`enterPreVote`).
`sync_logs` reads the node once for the round (`syncRound`) and once for each
peer (`syncPeer`), and its replies are processed later (`appendReply`).

* Votes: `handleRequestVote`, `handlePreVote`, `handleTxVoteRequest`.
* Elections: promotion, the two rounds and the processing of their replies.
* Replication: `handleAppendEntries`, and both halves of `sync_logs`.
* Snapshots: `handleInstallSnapshot` and `maybeSnapshot`.
-/

namespace OxideKv

open Fallible

structure RequestVoteArgs where
  term : Nat
  candidateId : String
  lastLogIndex : Nat
  lastLogTerm : Nat
deriving Repr, DecidableEq

structure VoteResponseArgs where
  term : Nat
  voteGranted : Bool
deriving Repr, DecidableEq

structure AppendEntriesArgs where
  term : Nat
  leaderId : String
  prevLogIndex : Nat
  prevLogTerm : Nat
  entries : List LogEntry
  leaderCommit : Nat
deriving Repr, DecidableEq

structure AppendReplyArgs where
  term : Nat
  success : Bool
deriving Repr, DecidableEq

structure InstallSnapshotArgs where
  term : Nat
  leaderId : String
  lastIncludedIndex : Nat
  lastIncludedTerm : Nat
  snapshot : Snapshot

structure InstallSnapshotReplyArgs where
  term : Nat
deriving Repr, DecidableEq

/-- `VoteRequest` of `coordination.rs`. -/
structure VoteRequest where
  term : Nat
  txId : String
  lastLogIndex : Nat
  lastLogTerm : Nat
deriving Repr, DecidableEq

/-- `VoteResponse` of `coordination.rs`. -/
structure VoteResponse where
  term : Nat
  voteGranted : Bool
  reason : String
deriving Repr, DecidableEq

namespace RaftNode

/-! ## Votes -/

/-- `handle_request_vote`. -/
def handleRequestVote (clock : Clock) (args : RequestVoteArgs) (n : RaftNode) :
    VoteResponseArgs × RaftNode :=
  if args.term < n.currentTerm then
    ({ term := n.currentTerm, voteGranted := false }, n)
  else
    let n := adoptNewer args.term n
    let canVote := n.voteFor.isNone || n.voteFor == some args.candidateId
    if canVote && n.logUpToDate args.lastLogIndex args.lastLogTerm then
      let n := saveMeta { n with voteFor := some args.candidateId }
      ({ term := n.currentTerm, voteGranted := true }, { n with lastHeartbeat := clock.now })
    else
      ({ term := n.currentTerm, voteGranted := false }, n)

/-- `handle_pre_vote`: only the heartbeat clock changes. -/
def handlePreVote (clock : Clock) (args : RequestVoteArgs) (n : RaftNode) :
    VoteResponseArgs × RaftNode :=
  let n := { n with lastHeartbeat := clock.now }
  if args.term < n.currentTerm ∨ u64Succ n.currentTerm < args.term then
    ({ term := n.currentTerm, voteGranted := false }, n)
  else if args.term = n.currentTerm ∧ n.state = .leader then
    ({ term := n.currentTerm, voteGranted := false }, n)
  else
    ({ term := n.currentTerm
       voteGranted := n.logUpToDate args.lastLogIndex args.lastLogTerm }, n)

/-- Step 4 of `handle_tx_vote_request`: `commit_index` jumps to the entry the
leader votes about, when the log reaches that far. -/
def fastForwardCommit (index : Nat) (n : RaftNode) : RaftNode :=
  if n.commitIndex < index then
    if index ≤ n.log.length then { n with commitIndex := index } else n
  else n

/-- `handle_tx_vote_request`. -/
def handleTxVoteRequest (clock : Clock) (req : VoteRequest) (n : RaftNode) :
    VoteResponse × RaftNode :=
  if req.term < n.currentTerm then
    ({ term := n.currentTerm
       voteGranted := false
       reason := s!"stale term: request term {req.term} < current term {n.currentTerm}" }, n)
  else if n.currentTerm < req.term then
    let n := stepDown req.term n
    ({ term := n.currentTerm
       voteGranted := false
       reason := s!"term advance: adopted term {req.term} but deferring vote to elected leader" },
      n)
  else if !n.logUpToDate req.lastLogIndex req.lastLogTerm then
    let (index, term) := n.getLastLogInfo
    ({ term := n.currentTerm
       voteGranted := false
       reason := s!"leader log stale: leader=({req.lastLogIndex}, {req.lastLogTerm}) local=({index}, {term})" },
      n)
  else
    let n := applyLogs clock (fastForwardCommit req.lastLogIndex n)
    if !n.stateMachine.isTxPending req.txId then
      ({ term := n.currentTerm
         voteGranted := false
         reason := s!"tx not pending: {req.txId}" }, n)
    else
      ({ term := n.currentTerm, voteGranted := true, reason := "" },
        { n with
          stateMachine := (StateMachine.recordVote req.txId n.nodeId .yes n.stateMachine).2 })

/-! ## Elections -/

/-- `promote_to_candidate_locked`. -/
def promoteToCandidate (clock : Clock) (n : RaftNode) : RaftNode :=
  let n := saveMeta
    { n with
      currentTerm := u64Succ n.currentTerm
      state := .candidate
      voteFor := some n.nodeId }
  { n with lastHeartbeat := clock.now }

/-- `become_leader`: every peer starts at the end of the log.  `matchIndex`
stays as it is. -/
def becomeLeader (clock : Clock) (n : RaftNode) : RaftNode :=
  if n.state = .leader then n
  else
    { n with
      state := .leader
      nextIndex := fun p => if p ∈ n.peers then some (n.log.length + 1) else none
      lastHeartbeat := clock.now }

/-- What `request_votes` and `become_pre_candidate` read off the node: the
peers to ask and the request for each of them. -/
structure VoteRound where
  peers : List String
  args : RequestVoteArgs
deriving Repr, DecidableEq

/-- The nodes a round counts. -/
def VoteRound.totalNodes (r : VoteRound) : Nat := r.peers.length + 1

/-- The read of `request_votes`. -/
def voteRound (n : RaftNode) : VoteRound :=
  { peers := n.peers
    args :=
      { term := n.currentTerm
        candidateId := n.nodeId
        lastLogIndex := n.getLastLogInfo.1
        lastLogTerm := n.getLastLogInfo.2 } }

/-- The lines of `request_votes` that run with a majority of the votes of
the round of `term`. -/
def voteQuorum (clock : Clock) (term : Nat) (n : RaftNode) : RaftNode :=
  if n.state = .candidate ∧ n.currentTerm = term then becomeLeader clock n else n

/-- The lines of `request_votes` that process a refusal.  `term` is the term
of the round. -/
def voteRefused (term : Nat) (reply : VoteResponseArgs) (n : RaftNode) : RaftNode :=
  if term < reply.term then stepDown reply.term n else n

/-- The read of `become_pre_candidate`. -/
def preVoteRound (n : RaftNode) : VoteRound :=
  { peers := n.peers
    args :=
      { term := u64Succ n.currentTerm
        candidateId := n.nodeId
        lastLogIndex := n.getLastLogInfo.1
        lastLogTerm := n.getLastLogInfo.2 } }

/-- The write of `become_pre_candidate`; `false` ends the call. -/
def enterPreVote (probedTerm : Nat) (n : RaftNode) : Bool × RaftNode :=
  if n.state = .follower ∧ u64Succ n.currentTerm = probedTerm then
    (true, { n with state := .preCandidate })
  else (false, n)

/-- `become_leader_checked`. -/
def becomeLeaderChecked (clock : Clock) (n : RaftNode) : Bool × RaftNode :=
  if n.state ≠ .candidate then (false, n) else (true, becomeLeader clock n)

/-- The single-node path of `become_pre_candidate`. -/
def preVoteAlone (clock : Clock) (n : RaftNode) : RaftNode :=
  if n.state = .preCandidate then (becomeLeaderChecked clock (promoteToCandidate clock n)).2
  else n

/-- The first branch of `process_pre_vote_reply`: the peer is past the probed
term. -/
def preVoteStale (n : RaftNode) : RaftNode :=
  if n.state = .preCandidate then { n with state := .follower } else n

/-- The end of `process_pre_vote_reply`, with a majority of the probes
granted; `true` goes on to `request_votes`. -/
def preVoteQuorum (clock : Clock) (n : RaftNode) : Bool × RaftNode :=
  if n.state ≠ .preCandidate then (false, n) else (true, promoteToCandidate clock n)

/-- The step-down of `coordinate_tx_inner` on a tx vote response.
`leaderTerm` was read before the votes were asked for. -/
def coordinatorStepDown (leaderTerm : Nat) (resp : VoteResponse) (n : RaftNode) : RaftNode :=
  if leaderTerm < resp.term then
    if n.state = .leader then stepDown resp.term n else n
  else n

/-! ## Replication -/

/-- `append_wal_log` with the result dropped. -/
def appendWal (entry : LogEntry) (n : RaftNode) : RaftNode :=
  { n with storage := (RaftStorage.appendWalLog entry n.storage).2 }

/-- One turn of the loop of `handle_append_entries`. -/
def mergeEntry (n : RaftNode) (entry : LogEntry) : RaftNode :=
  let idx := usizePred entry.index
  match n.log[idx]? with
  | some own =>
      if own.term ≠ entry.term then
        appendWal entry { n with log := n.log.take idx ++ [entry] }
      else n
  | none => appendWal entry { n with log := n.log ++ [entry] }

/-- The check of `handle_append_entries` on the entry before the new ones. -/
def prevLogMatches (args : AppendEntriesArgs) (n : RaftNode) : Bool :=
  args.prevLogIndex == 0 ||
    (n.log[args.prevLogIndex - 1]?).map LogEntry.term == some args.prevLogTerm

/-- The part of `handle_append_entries` that takes over the term and the
leader of the request. -/
def followLeader (clock : Clock) (term : Nat) (n : RaftNode) : RaftNode :=
  let n := if n.currentTerm < term then saveMeta { n with currentTerm := term, voteFor := none }
    else n
  { n with state := .follower, lastHeartbeat := clock.now }

/-- The end of `handle_append_entries`: the commit index follows the
leader's. -/
def followCommit (clock : Clock) (leaderCommit : Nat) (n : RaftNode) : RaftNode :=
  if n.commitIndex < leaderCommit then
    applyLogs clock { n with commitIndex := min leaderCommit n.log.length }
  else n

/-- `handle_append_entries`. -/
def handleAppendEntries (clock : Clock) (args : AppendEntriesArgs) (n : RaftNode) :
    AppendReplyArgs × RaftNode :=
  if args.term < n.currentTerm then
    ({ term := n.currentTerm, success := false }, n)
  else if args.term = n.currentTerm ∧ n.state = .leader then
    ({ term := n.currentTerm, success := false }, n)
  else
    let n := followLeader clock args.term n
    if !prevLogMatches args n then
      ({ term := n.currentTerm, success := false }, n)
    else
      let n := followCommit clock args.leaderCommit (args.entries.foldl mergeEntry n)
      ({ term := n.currentTerm, success := true }, n)

/-- The first read of `sync_logs`. -/
structure SyncRound where
  currentTerm : Nat
  nodeId : String
  commitIndex : Nat
  peers : List String
  logLen : Nat
deriving Repr, DecidableEq

def syncRound (n : RaftNode) : SyncRound :=
  { currentTerm := n.currentTerm
    nodeId := n.nodeId
    commitIndex := n.commitIndex
    peers := n.peers
    logLen := n.log.length }

/-- The path of `sync_logs` without peers. -/
def syncAlone (clock : Clock) (n : RaftNode) : RaftNode :=
  if n.state = .leader then maybeCommit clock n else n

/-- The read of `sync_logs` for one peer, and the message it sends.  The
length of the log is that of the first read, so the slice can lie outside the
log. -/
def syncPeer (round : SyncRound) (peer : String) (n : RaftNode) : Option AppendEntriesArgs :=
  let next := (n.nextIndex peer).getD 1
  let prevIdx := usizePred next
  let prevTerm :=
    if prevIdx = 0 then 0 else ((n.log[prevIdx - 1]?).map LogEntry.term).getD 0
  let args (entries : List LogEntry) : AppendEntriesArgs :=
    { term := round.currentTerm
      leaderId := round.nodeId
      prevLogIndex := prevIdx
      prevLogTerm := prevTerm
      entries := entries
      leaderCommit := round.commitIndex }
  if next ≤ round.logLen then
    if prevIdx ≤ n.log.length then some (args (n.log.drop prevIdx)) else none
  else some (args [])

/-- Insertion into an index map. -/
def insertIndex (m : IndexMap) (peer : String) (index : Nat) : IndexMap :=
  fun p => if p = peer then some index else m p

/-- The closure of `sync_logs` that processes the reply of `peer` to
`args`. -/
def appendReply (clock : Clock) (peer : String) (args : AppendEntriesArgs)
    (reply : AppendReplyArgs) (n : RaftNode) : RaftNode :=
  if reply.success then
    let lastIdx := args.prevLogIndex + args.entries.length
    maybeCommit clock
      { n with
        matchIndex := insertIndex n.matchIndex peer lastIdx
        nextIndex := insertIndex n.nextIndex peer (lastIdx + 1)
        lastQuorumHeartbeatAt := some clock.now }
  else if n.currentTerm < reply.term then
    stepDown reply.term n
  else
    let next := (n.nextIndex peer).getD 1
    if 1 < next then { n with nextIndex := insertIndex n.nextIndex peer (next - 1) } else n

/-! ## Snapshots -/

/-- The loop of `handle_install_snapshot` over the data. -/
def loadSnapshotData (data : Std.TreeMap String String) : StateMachine.Io Unit :=
  data.toList.forM fun p => ignoreErr (StateMachine.set p.1 p.2)

/-- `handle_install_snapshot`. -/
def handleInstallSnapshot (clock : Clock) (args : InstallSnapshotArgs) (n : RaftNode) :
    Option (InstallSnapshotReplyArgs × RaftNode) :=
  if args.term < n.currentTerm then
    some ({ term := n.currentTerm }, n)
  else if args.term = n.currentTerm ∧ n.state = .leader then
    some ({ term := n.currentTerm }, n)
  else
    let n := adoptNewer args.term n
    let n := { n with state := .follower, lastHeartbeat := clock.now }
    let storage := (RaftStorage.saveSnapshot args.snapshot n.storage).2
    match StateMachine.clearForSnapshot n.stateMachine with
    | (.error _, _) => none
    | (.ok _, sm) =>
        let lastIncluded := args.lastIncludedIndex
        some ({ term := n.currentTerm },
          { n with
            stateMachine := (loadSnapshotData args.snapshot.data sm).2
            log := n.log.filter (fun e => lastIncluded < e.index)
            storage := (RaftStorage.rewriteWalAfterSnapshot lastIncluded storage).2
            commitIndex := max n.commitIndex lastIncluded
            lastApplied := max n.lastApplied lastIncluded })

/-- `maybe_snapshot`. -/
def maybeSnapshot (thresholdBytes : Nat) (n : RaftNode) : Option (Bool × RaftNode) :=
  if n.state ≠ .leader then some (false, n)
  else if n.storage.walSizeBytes ≤ thresholdBytes then some (false, n)
  else if n.commitIndex = 0 then some (false, n)
  else
    let snapshotTerm := ((n.log[n.commitIndex - 1]?).map LogEntry.term).getD 0
    match n.stateMachine.snapshotData with
    | .error _ => none
    | .ok data =>
        let snap : Snapshot :=
          { lastIncludedIndex := n.commitIndex
            lastIncludedTerm := snapshotTerm
            data := data }
        match RaftStorage.saveSnapshot snap n.storage with
        | (.error _, storage) => some (false, { n with storage := storage })
        | (.ok _, storage) =>
            some (true,
              { n with
                storage := (RaftStorage.rewriteWalAfterSnapshot n.commitIndex storage).2 })

end RaftNode

end OxideKv
