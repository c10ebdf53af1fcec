import OxideKv.Raft.Storage

/-!
# One Raft node

The state of `RaftNode` in `node.rs`, how a node starts, how it appends to
its log and how it applies committed entries.  The RPC handlers and the
reply handlers are in `Handlers`.

Every method that holds the write lock of the node from its first to its
last line is one function on `RaftNode`.  The clock enters as an argument.
The handles of the transport, of the clock and of the metrics are left out:
no method reads a metric back.  `state_machine` is a shared handle in the
source; only the node writes through it.

An `Option` result is `none` where the source panics.
-/

namespace OxideKv

open Fallible

inductive NodeState where
  | follower
  | candidate
  | leader
  | preCandidate
deriving Repr, DecidableEq

/-- What a call reads off the clock: the instant, and the wall clock in
milliseconds at the time the entry at a position is applied. -/
structure Clock where
  now : Nat
  unixMs : Nat → Nat

structure RaftNode where
  stateMachine : StateMachine
  currentTerm : Nat
  voteFor : Option String
  storage : RaftStorage
  log : List LogEntry
  state : NodeState
  nodeId : String
  peers : List String
  commitIndex : Nat
  lastApplied : Nat
  lastHeartbeat : Nat
  lastQuorumHeartbeatAt : Option Nat
  nextIndex : IndexMap
  matchIndex : IndexMap
  currentConfig : Configuration
  pendingPostJointSimple : Option Configuration

inductive MembershipError where
  | notLeader
  | alreadyMember (nodeId : String)
  | cannotRemoveSelf
  | notMember (nodeId : String)
  | cannotRemoveLastServer
  | storageError (e : IoError)
deriving Repr, DecidableEq

inductive AbortTxError where
  | notLeader
  | notFound (txId : String)
  | storageError (e : IoError)
deriving Repr, DecidableEq

namespace RaftNode

/-! ## Start -/

/-- A server under its dial address. -/
def serverAt (addr : String) : ServerId := { nodeId := addr, addr := addr }

/-- `new_with_clock_and_transport`: term, vote and log come from disk, the
rest starts over. -/
def new (raftAddr : String) (peers : List String) (sm : StateMachine)
    (storage : RaftStorage) (clock : Clock) : RaftNode :=
  { stateMachine := sm
    currentTerm := storage.readMeta.1
    voteFor := storage.readMeta.2
    storage := storage
    log := storage.restoreWalLog
    state := .follower
    nodeId := raftAddr
    peers := peers
    commitIndex := 0
    lastApplied := 0
    lastHeartbeat := clock.now
    lastQuorumHeartbeatAt := none
    nextIndex := fun _ => none
    matchIndex := fun _ => none
    currentConfig := .simple (serverAt raftAddr :: peers.map serverAt)
    pendingPostJointSimple := none }

/-- `restore_from_snapshot`: the state machine takes the snapshot, and both
indices move up to it. -/
def restoreFromSnapshot (n : RaftNode) : Option RaftNode :=
  match n.storage.loadSnapshot with
  | none => some n
  | some snap =>
      match StateMachine.installSnapshot snap.data n.stateMachine with
      | (.error _, _) => none
      | (.ok _, sm) =>
          some { n with
            stateMachine := sm
            commitIndex := max n.commitIndex snap.lastIncludedIndex
            lastApplied := max n.lastApplied snap.lastIncludedIndex }

/-! ## Reading the node -/

/-- `get_last_log_info`: index and term of the last entry of the log. -/
def getLastLogInfo (n : RaftNode) : Nat × Nat :=
  match n.log.getLast? with
  | some entry => (entry.index, entry.term)
  | none => (0, 0)

/-- The election restriction, as `handle_request_vote`, `handle_pre_vote` and
`handle_tx_vote_request` test it. -/
def logUpToDate (n : RaftNode) (lastLogIndex lastLogTerm : Nat) : Bool :=
  decide (n.getLastLogInfo.2 < lastLogTerm) ||
    (lastLogTerm == n.getLastLogInfo.2 && decide (n.getLastLogInfo.1 ≤ lastLogIndex))

/-- `match_index_for`. -/
def matchIndexFor (n : RaftNode) (peer : String) : Nat := (n.matchIndex peer).getD 0

/-! ## Term and vote -/

/-- `save_meta` with the result dropped. -/
def saveMeta (n : RaftNode) : RaftNode :=
  { n with storage := (RaftStorage.saveMeta n.currentTerm n.voteFor n.storage).2 }

/-- Adopt a term: the vote is cleared and the node is a follower. -/
def stepDown (term : Nat) (n : RaftNode) : RaftNode :=
  saveMeta { n with currentTerm := term, state := .follower, voteFor := none }

/-- The step-down of a handler that meets a newer term. -/
def adoptNewer (term : Nat) (n : RaftNode) : RaftNode :=
  if n.currentTerm < term then stepDown term n else n

/-! ## Appending to the log -/

/-- `append_wal_log`, then the push of the entry when it succeeded. -/
def appendEntry (entry : LogEntry) (n : RaftNode) : Except IoError Unit × RaftNode :=
  match RaftStorage.appendWalLog entry n.storage with
  | (.ok _, storage) => (.ok (), { n with storage := storage, log := n.log ++ [entry] })
  | (.error e, storage) => (.error e, { n with storage := storage })

/-- The entry that a leader makes of a command. -/
def nextEntry (command : Command) (n : RaftNode) : LogEntry :=
  { term := n.currentTerm, index := n.log.length + 1, command := command }

/-- `propose`. -/
def propose (command : Command) (n : RaftNode) : Bool × RaftNode :=
  if n.state ≠ .leader then (false, n)
  else
    match appendEntry (n.nextEntry command) n with
    | (.ok _, n') => (true, n')
    | (.error _, n') => (false, n')

/-- The loop of `propose_batch` from position `index` on. -/
def proposeBatchFrom (index : Nat) : List Command → RaftNode → Bool × RaftNode
  | [], n => (true, n)
  | command :: rest, n =>
      match appendEntry { term := n.currentTerm, index := index, command := command } n with
      | (.ok _, n') => proposeBatchFrom (index + 1) rest n'
      | (.error _, n') => (false, n')

/-- `propose_batch`. -/
def proposeBatch (commands : List Command) (n : RaftNode) : Bool × RaftNode :=
  if n.state ≠ .leader then (false, n)
  else proposeBatchFrom (n.log.length + 1) commands n

/-- The lines `propose_add_node` and `propose_remove_node` share: log the
joint configuration, and keep the simple one for the second phase. -/
def proposeConfiguration (old new : List ServerId) (n : RaftNode) :
    Except MembershipError Nat × RaftNode :=
  match appendEntry (n.nextEntry (.installConfiguration (.joint old new))) n with
  | (.error e, n') => (.error (.storageError e), n')
  | (.ok _, n') =>
      (.ok (n.log.length + 1), { n' with pendingPostJointSimple := some (.simple new) })

/-- `propose_add_node`. -/
def proposeAddNode (server : ServerId) (n : RaftNode) : Except MembershipError Nat × RaftNode :=
  if n.state ≠ .leader then (.error .notLeader, n)
  else if n.currentConfig.contains server.nodeId then
    (.error (.alreadyMember server.nodeId), n)
  else
    let old := n.currentConfig.allServers
    proposeConfiguration old (old ++ [server]) n

/-- `propose_remove_node`. -/
def proposeRemoveNode (nodeId : String) (n : RaftNode) : Except MembershipError Nat × RaftNode :=
  if n.state ≠ .leader then (.error .notLeader, n)
  else if nodeId = n.nodeId then (.error .cannotRemoveSelf, n)
  else if !n.currentConfig.contains nodeId then (.error (.notMember nodeId), n)
  else
    let old := n.currentConfig.allServers
    let new := old.filter (fun s => s.nodeId ≠ nodeId)
    if new.isEmpty then (.error .cannotRemoveLastServer, n)
    else proposeConfiguration old new n

/-- `propose_abort_tx`. -/
def proposeAbortTx (txId : String) (n : RaftNode) : Except AbortTxError Nat × RaftNode :=
  if n.state ≠ .leader then (.error .notLeader, n)
  else if !n.stateMachine.isTxPending txId then (.error (.notFound txId), n)
  else
    match appendEntry (n.nextEntry (.decideTx txId .abort)) n with
    | (.error e, n') => (.error (.storageError e), n')
    | (.ok _, n') => (.ok (n.log.length + 1), n')

/-! ## Applying the log -/

/-- The dial list of a configuration. -/
def peersOf (nodeId : String) (config : Configuration) : List String :=
  (config.allServers.filter (fun s => s.nodeId ≠ nodeId)).map ServerId.addr

/-- Whether the waiting simple configuration belongs to the one that was just
installed. -/
def postJointMatches (config simpleNew : Configuration) : Bool :=
  (match config with
    | .joint _ new => new == simpleNew.allServers
    | .simple _ => false) ||
  (match simpleNew, config with
    | .simple servers, .simple c => c == servers
    | _, _ => false)

/-- `install_configuration`.  A leader takes the waiting simple configuration
and proposes it. -/
def installConfiguration (config : Configuration) (n : RaftNode) : RaftNode :=
  let n := { n with currentConfig := config, peers := peersOf n.nodeId config }
  if n.state = .leader then
    match n.pendingPostJointSimple with
    | none => n
    | some simpleNew =>
        let n := { n with pendingPostJointSimple := none }
        if postJointMatches config simpleNew then
          (appendEntry (n.nextEntry (.installConfiguration simpleNew)) n).2
        else n
  else n

/-- The commands that reach the state machine. -/
def applyToStore (unixMs : Nat) : Command → StateMachine.Io Unit
  | .set key value => StateMachine.set key value
  | .delete key => StateMachine.delete key
  | .beginTx txId ops => StateMachine.beginTx txId ops unixMs
  | .decideTx txId decision => StateMachine.decideTx txId decision
  | _ => pure ()

/-- A command on the state machine, with the result dropped. -/
def applyStore (unixMs : Nat) (command : Command) (n : RaftNode) : RaftNode :=
  { n with stateMachine := (applyToStore unixMs command n.stateMachine).2 }

/-- The body of the loop of `apply_logs`. -/
def applyCommand (unixMs : Nat) (command : Command) (n : RaftNode) : RaftNode :=
  match command with
  | .installConfiguration config => installConfiguration config n
  | command => applyStore unixMs command n

/-- The loop of `apply_logs`.  `fuel` is the distance from `lastApplied` to
`commitIndex`, and every turn shortens it. -/
def applyLoop (clock : Clock) : Nat → RaftNode → RaftNode
  | 0, n => n
  | fuel + 1, n =>
      if n.lastApplied < n.commitIndex then
        match n.log[n.lastApplied]? with
        | none => n
        | some entry =>
            let n' := applyCommand (clock.unixMs n.lastApplied) entry.command n
            applyLoop clock fuel { n' with lastApplied := n'.lastApplied + 1 }
      else n

/-- `apply_logs`. -/
def applyLogs (clock : Clock) (n : RaftNode) : RaftNode :=
  applyLoop clock (n.commitIndex - n.lastApplied) n

/-- `maybe_commit`. -/
def maybeCommit (clock : Clock) (n : RaftNode) : RaftNode :=
  if n.state ≠ .leader then n
  else
    let highest :=
      configQuorumReachedIndex n.currentConfig n.matchIndex n.nodeId n.log.length
    if n.commitIndex < highest then
      if ((n.log[highest - 1]?).map LogEntry.term).getD 0 = n.currentTerm then
        applyLogs clock { n with commitIndex := highest }
      else n
    else n

/-- The body of the loop of `replay_logs`.  A configuration is installed
without the second phase. -/
def replayCommand (unixMs : Nat) (command : Command) (n : RaftNode) : RaftNode :=
  match command with
  | .installConfiguration config =>
      { n with currentConfig := config, peers := peersOf n.nodeId config }
  | command => applyStore unixMs command n

/-- `replay_logs`: every entry of the log, whatever was committed. -/
def replayLogs (clock : Clock) (n : RaftNode) : RaftNode :=
  let n' := n.log.zipIdx.foldl
    (fun n e => replayCommand (clock.unixMs e.2) e.1.command n) n
  { n' with lastApplied := n.log.length }

/-- The start of the process on the files that the node `n` left behind:
`StateMachine::open`, `RaftNode::new`, the standalone mode of `main`,
`restore_from_snapshot` and `replay_logs`. -/
def restart (raftAddr : String) (peers : List String) (clock : Clock) (n : RaftNode) :
    Option RaftNode :=
  match StateMachine.openStore n.stateMachine.memtableSizeThreshold n.stateMachine.disk with
  | .error _ => none
  | .ok sm =>
      let fresh := new raftAddr peers sm n.storage clock
      let fresh := if peers.isEmpty then { fresh with state := .leader } else fresh
      (restoreFromSnapshot fresh).map (replayLogs clock)

end RaftNode

end OxideKv
