import OxideKv.Raft.Tasks

/-!
# A cluster of nodes

The nodes of a fixed membership, the calls that wait for a lock, the vote
counters and the RPCs.  A step is one critical section of one node: a client
call, a timer, a call that gets the lock, a node that handles a request, or a
task that processes the reply it has waited for.

The network decides the order.  A request can be handled any number of times,
whenever and in any order, or never; each time a reply is sent.  The task of
an RPC processes at most one of the replies to it, whenever that is.

Membership is fixed, so no configuration is proposed; transaction votes and
snapshots are left out.  A crash drops the calls and the waiting tasks of the
node and runs `RaftNode::new`, `restore_from_snapshot` and `replay_logs` on
what is on its disk.
-/

namespace OxideKv

open RaftNode

/-- The members of a cluster, with the peers that each of them is started
with. -/
structure Membership where
  members : List String
  nodup : members.Nodup
  peers : String → List String
  perm : ∀ p ∈ members, (p :: peers p).Perm members

namespace Membership

variable {m : Membership} {p q : String}

theorem nodup_peers (m : Membership) (h : p ∈ m.members) : (p :: m.peers p).Nodup :=
  (m.perm p h).nodup_iff.mpr m.nodup

theorem length_peers (m : Membership) (h : p ∈ m.members) :
    (m.peers p).length + 1 = m.members.length :=
  (m.perm p h).length_eq

theorem mem_of_mem_peers (h : p ∈ m.members) (hq : q ∈ m.peers p) : q ∈ m.members :=
  (m.perm p h).subset (List.mem_cons_of_mem p hq)

end Membership

/-! ## Messages -/

/-- A request, with the number of its round for votes and probes. -/
inductive Request where
  | requestVote (poll : Nat) (args : RequestVoteArgs)
  | preVote (probe : Nat) (args : RequestVoteArgs)
  | appendEntries (args : AppendEntriesArgs)
deriving DecidableEq

inductive Reply where
  | vote (r : VoteResponseArgs)
  | preVote (r : VoteResponseArgs)
  | append (r : AppendReplyArgs)
deriving DecidableEq

/-- An RPC and whether its task still waits for a reply. -/
structure Rpc where
  src : String
  dst : String
  request : Request
  waiting : Bool
deriving DecidableEq

namespace Request

/-- The handler of a request. -/
def handle (clock : Clock) (n : RaftNode) : Request → Reply × RaftNode
  | .requestVote _ args =>
      (.vote (handleRequestVote clock args n).1, (handleRequestVote clock args n).2)
  | .preVote _ args => (.preVote (handlePreVote clock args n).1, (handlePreVote clock args n).2)
  | .appendEntries args =>
      (.append (handleAppendEntries clock args n).1, (handleAppendEntries clock args n).2)

def nodeEvent (clock : Clock) : Request → NodeEvent
  | .requestVote _ args => .requestVote clock args
  | .preVote _ args => .preVote clock args
  | .appendEntries args => .appendEntries clock args

end Request

/-! ## The cluster -/

/-- A round of votes or of probes with its counter. -/
structure Tally where
  round : VoteRound
  votesReceived : Nat
deriving DecidableEq

structure Cluster where
  nodes : String → RaftNode
  calls : List (String × Call)
  polls : List Tally
  probes : List Tally
  rpcs : List Rpc
  /-- The replies on the way, each with the number of its RPC. -/
  replies : List (Nat × Reply)

inductive Event where
  | becomeCandidate (p : String) (clock : Clock)
  | becomePreCandidate (p : String)
  | propose (p : String) (command : Command)
  | proposeBatch (p : String) (commands : List Command)
  | proposeAbortTx (p : String) (txId : String)
  /-- A caller of `sync_logs` looks at the role of the node. -/
  | leaderCheck (p : String)
  /-- The call at position `k` gets the lock of its node. -/
  | resume (k : Nat) (clock : Clock)
  /-- The request of RPC `i` is handled. -/
  | deliver (i : Nat) (clock : Clock)
  /-- The task of an RPC gets the reply `j`. -/
  | receive (j : Nat) (clock : Clock)
  | restart (p : String) (clock : Clock)

namespace Cluster

def setNode (p : String) (n : RaftNode) (s : Cluster) : Cluster :=
  { s with nodes := Function.update s.nodes p n }

def addCalls (p : String) (calls : List Call) (s : Cluster) : Cluster :=
  { s with calls := s.calls ++ calls.map fun c => (p, c) }

/-- `request_votes` asks the peers of its round; its own vote is counted. -/
def openPoll (p : String) (round : VoteRound) (s : Cluster) : Cluster :=
  { s with
    polls := s.polls ++ [{ round := round, votesReceived := 1 }]
    rpcs := s.rpcs ++ round.peers.map fun q =>
      { src := p, dst := q, request := .requestVote s.polls.length round.args, waiting := true } }

/-- `become_pre_candidate` probes the peers of its round. -/
def openProbe (p : String) (round : VoteRound) (s : Cluster) : Cluster :=
  { s with
    probes := s.probes ++ [{ round := round, votesReceived := 0 }]
    rpcs := s.rpcs ++ round.peers.map fun q =>
      { src := p, dst := q, request := .preVote s.probes.length round.args, waiting := true } }

/-- `sync_logs` sends `AppendEntries`. -/
def send (p : String) (sent : List (String × AppendEntriesArgs)) (s : Cluster) : Cluster :=
  { s with
    rpcs := s.rpcs ++ sent.map fun m =>
      { src := p, dst := m.1, request := .appendEntries m.2, waiting := true } }

@[simp] theorem setNode_self (p : String) (s : Cluster) : setNode p (s.nodes p) s = s := by
  unfold setNode
  rw [Function.update_eq_self]

@[simp] theorem setNode_nodes_self (p : String) (n : RaftNode) (s : Cluster) :
    (setNode p n s).nodes p = n := by
  simp [setNode]

@[simp] theorem addCalls_nil (p : String) (s : Cluster) : addCalls p [] s = s := by
  simp [addCalls]

@[simp] theorem send_nil (p : String) (s : Cluster) : send p [] s = s := by
  simp [send]

/-- What a call on `p` has done while it held the lock. -/
def finish (p : String) (o : Outcome) (s : Cluster) : Cluster :=
  let s := setNode p o.node s
  let s := (o.poll.map fun round => openPoll p round s).getD s
  let s := (o.probe.map fun round => openProbe p round s).getD s
  addCalls p o.next (send p o.sent s)

/-- A vote of round `k` is counted.  With a majority the task goes on to
become leader. -/
def countVote (k : Nat) (p : String) (term : Nat) (s : Cluster) : Cluster :=
  match s.polls[k]? with
  | none => s
  | some tally =>
      let count := tally.votesReceived + 1
      let s := { s with polls := s.polls.set k { tally with votesReceived := count } }
      if tally.round.totalNodes / 2 < count then addCalls p [.voteQuorum term] s else s

/-- A granted probe of round `k` is counted. -/
def countProbe (k : Nat) (p : String) (s : Cluster) : Cluster :=
  match s.probes[k]? with
  | none => s
  | some tally =>
      let count := tally.votesReceived + 1
      let s := { s with probes := s.probes.set k { tally with votesReceived := count } }
      if tally.round.totalNodes / 2 < count then addCalls p [.preVoteQuorum] s else s

/-- The task of an RPC processes a reply. -/
def process (clock : Clock) (rpc : Rpc) (reply : Reply) (s : Cluster) : Cluster :=
  match rpc.request, reply with
  | .requestVote k args, .vote r =>
      if r.voteGranted then countVote k rpc.src args.term s
      else setNode rpc.src (voteRefused args.term r (s.nodes rpc.src)) s
  | .preVote k args, .preVote r =>
      if args.term < r.term then setNode rpc.src (preVoteStale (s.nodes rpc.src)) s
      else if r.voteGranted then countProbe k rpc.src s
      else s
  | .appendEntries args, .append r =>
      setNode rpc.src (appendReply clock rpc.dst args r (s.nodes rpc.src)) s
  -- an unexpected reply variant is logged and ignored
  | _, _ => s

/-- `RaftNode::new`, `restore_from_snapshot` and `replay_logs` on the files
that the node left behind. -/
def startup (m : Membership) (p : String) (clock : Clock) (n : RaftNode) : Option RaftNode :=
  match StateMachine.openStore n.stateMachine.memtableSizeThreshold n.stateMachine.disk with
  | .error _ => none
  | .ok sm =>
      (restoreFromSnapshot (RaftNode.new p (m.peers p) sm n.storage clock)).map
        (replayLogs clock)

/-- The calls of the process and its waiting tasks are gone. -/
def dropTasks (p : String) (s : Cluster) : Cluster :=
  { s with
    calls := s.calls.filter fun c => c.1 ≠ p
    rpcs := s.rpcs.map fun rpc => if rpc.src = p then { rpc with waiting := false } else rpc }

def step (m : Membership) (s : Cluster) : Event → Option Cluster
  | .becomeCandidate p clock =>
      if p ∈ m.members then
        some (addCalls p [.requestVotes] (setNode p (promoteToCandidate clock (s.nodes p)) s))
      else none
  | .becomePreCandidate p =>
      if p ∈ m.members then
        some (addCalls p [.enterPreVote (s.nodes p).preVoteRound] s)
      else none
  | .propose p command =>
      if p ∈ m.members ∧ command.isPlain then
        some (setNode p (propose command (s.nodes p)).2 s)
      else none
  | .proposeBatch p commands =>
      if p ∈ m.members ∧ commands.all Command.isPlain then
        some (setNode p (proposeBatch commands (s.nodes p)).2 s)
      else none
  | .proposeAbortTx p txId =>
      if p ∈ m.members then some (setNode p (proposeAbortTx txId (s.nodes p)).2 s) else none
  | .leaderCheck p =>
      if p ∈ m.members then
        some (if (s.nodes p).state = .leader then addCalls p [.syncLogs] s else s)
      else none
  | .resume k clock =>
      (s.calls[k]?).map fun c =>
        finish c.1 (c.2.resume clock (s.nodes c.1)) { s with calls := s.calls.eraseIdx k }
  | .deliver i clock =>
      (s.rpcs[i]?).map fun rpc =>
        let handled := rpc.request.handle clock (s.nodes rpc.dst)
        { setNode rpc.dst handled.2 s with replies := s.replies ++ [(i, handled.1)] }
  | .receive j clock =>
      (s.replies[j]?).bind fun r =>
        (s.rpcs[r.1]?).bind fun rpc =>
          if rpc.waiting then
            some (process clock rpc r.2
              { s with rpcs := s.rpcs.set r.1 { rpc with waiting := false } })
          else none
  | .restart p clock =>
      if p ∈ m.members then
        (startup m p clock (s.nodes p)).map fun n => setNode p n (dropTasks p s)
      else none

/-- Every node has just been started on an empty directory. -/
def start (m : Membership) : Cluster :=
  { nodes := fun p => freshNode p (m.peers p)
    calls := []
    polls := []
    probes := []
    rpcs := []
    replies := [] }

/-! ## What a call does with the lock -/

theorem finish_next (p : String) (n : RaftNode) (next : List Call) (s : Cluster) :
    finish p { node := n, next := next } s = addCalls p next (setNode p n s) := by
  show addCalls p next (send p [] (setNode p n s)) = _
  rw [send_nil]

theorem finish_node (p : String) (n : RaftNode) (s : Cluster) :
    finish p { node := n } s = setNode p n s :=
  (finish_next p n [] s).trans (addCalls_nil p _)

theorem finish_probe (p : String) (n : RaftNode) (round : VoteRound) (s : Cluster) :
    finish p { node := n, probe := some round } s = openProbe p round (setNode p n s) := by
  show addCalls p [] (send p [] (openProbe p round (setNode p n s))) = _
  rw [addCalls_nil, send_nil]

theorem finish_poll (p : String) (round : VoteRound) (next : List Call) (s : Cluster) :
    finish p { node := s.nodes p, poll := some round, next := next } s =
      addCalls p next (openPoll p round s) := by
  show addCalls p next (send p [] (openPoll p round (setNode p (s.nodes p) s))) = _
  rw [send_nil, setNode_self]

theorem finish_sent (p : String) (next : List Call) (sent : List (String × AppendEntriesArgs))
    (s : Cluster) :
    finish p { node := s.nodes p, next := next, sent := sent } s =
      addCalls p next (send p sent s) := by
  show addCalls p next (send p sent (setNode p (s.nodes p) s)) = _
  rw [setNode_self]

/-- The cluster after a call on `p` that leaves the node `n'`. -/
inductive Resumed (p : String) (s : Cluster) (n' : RaftNode) : Call → Cluster → Prop where
  | node (c : Call) : Resumed p s n' c (setNode p n' s)
  | polls {next : List Call}
      (hnext : ∀ c ∈ next, c = .voteQuorum (s.nodes p).voteRound.args.term ∧
        (s.nodes p).voteRound.totalNodes = 1) :
      Resumed p s n' .requestVotes (addCalls p next (openPoll p (s.nodes p).voteRound s))
  | probes {round : VoteRound} :
      Resumed p s n' (.enterPreVote round) (openProbe p round (setNode p n' s))
  | alone {round : VoteRound} (halone : round.totalNodes = 1) :
      Resumed p s n' (.enterPreVote round) (addCalls p [.preVoteAlone] (setNode p n' s))
  | promoted : Resumed p s n' .preVoteQuorum (addCalls p [.requestVotes] (setNode p n' s))
  | syncs {c : Call}
      (hc : c = .syncAlone ∨ c = .syncPeers (s.nodes p).syncRound (s.nodes p).syncRound.peers) :
      Resumed p s n' .syncLogs (addCalls p [c] s)
  | sends {round : SyncRound} {peer : String} {rest : List String} {args : AppendEntriesArgs}
      (hsync : (s.nodes p).syncPeer round peer = some args) :
      Resumed p s n' (.syncPeers round (peer :: rest))
        (addCalls p [.syncPeers round rest] (send p [(peer, args)] s))

theorem resumed (clock : Clock) (p : String) (s : Cluster) (c : Call) :
    Resumed p s (c.resume clock (s.nodes p)).node c
      (finish p (c.resume clock (s.nodes p)) s) := by
  cases c with
  | requestVotes =>
    simp only [Call.resume, finish_poll]
    refine .polls fun c hc => ?_
    split_ifs at hc with halone
    · exact ⟨List.mem_singleton.mp hc, halone⟩
    · cases hc
  | voteQuorum term =>
    simp only [Call.resume, finish_node]
    exact .node _
  | enterPreVote round =>
    simp only [Call.resume]
    rcases RaftNode.enterPreVote round.args.term (s.nodes p) with ⟨ok, n'⟩
    cases ok with
    | false =>
      simp only [finish_node]
      exact .node _
    | true =>
      dsimp only
      split_ifs with halone
      · simp only [finish_next]
        exact .alone halone
      · simp only [finish_probe]
        exact .probes
  | preVoteAlone =>
    simp only [Call.resume, finish_node]
    exact .node _
  | preVoteQuorum =>
    simp only [Call.resume]
    rcases RaftNode.preVoteQuorum clock (s.nodes p) with ⟨ok, n'⟩
    cases ok with
    | false =>
      simp only [finish_node]
      exact .node _
    | true =>
      simp only [finish_next]
      exact .promoted
  | syncLogs =>
    simp only [Call.resume, finish_next, setNode_self]
    split_ifs
    · exact .syncs (Or.inl rfl)
    · exact .syncs (Or.inr rfl)
  | syncAlone =>
    simp only [Call.resume, finish_node]
    exact .node _
  | syncPeers round rest =>
    cases rest with
    | nil =>
      simp only [Call.resume, finish_node]
      exact .node _
    | cons peer rest =>
      simp only [Call.resume]
      cases hsync : (s.nodes p).syncPeer round peer with
      | none =>
        simp only [finish_node]
        exact .node _
      | some args =>
        simp only [finish_sent]
        exact .sends hsync

/-! ## The nodes of a cluster take steps of their own -/

/-- The call of a node that processes a reply. -/
def processEvent (clock : Clock) (rpc : Rpc) (reply : Reply) : Option NodeEvent :=
  match rpc.request, reply with
  | .requestVote _ args, .vote r => if r.voteGranted then none else some (.voteRefused args.term r)
  | .preVote _ args, .preVote r => if args.term < r.term then some .preVoteStale else none
  | .appendEntries args, .append r => some (.appendReply clock rpc.dst args r)
  | _, _ => none

/-- Two refusals and the reply to an `AppendEntries`. -/
theorem processEvent_cases {clock : Clock} {rpc : Rpc} {reply : Reply} {e : NodeEvent}
    (h : processEvent clock rpc reply = some e) :
    (∃ term r, e = .voteRefused term r) ∨ e = .preVoteStale ∨
      ∃ args r, e = .appendReply clock rpc.dst args r ∧ rpc.request = .appendEntries args ∧
        reply = .append r := by
  unfold processEvent at h
  split at h
  · split_ifs at h
    exact Or.inl ⟨_, _, (Option.some.inj h).symm⟩
  · split_ifs at h
    exact Or.inr (Or.inl (Option.some.inj h).symm)
  · exact Or.inr (Or.inr ⟨_, _, (Option.some.inj h).symm, by assumption, rfl⟩)
  · cases h

/-- A reply leads to a call of the node, or it is counted or ignored. -/
theorem process_cases (clock : Clock) (rpc : Rpc) (reply : Reply) (s : Cluster) :
    (∃ e n', processEvent clock rpc reply = some e ∧ (s.nodes rpc.src).step e = some n' ∧
        process clock rpc reply s = setNode rpc.src n' s) ∨
      processEvent clock rpc reply = none ∧
        (process clock rpc reply s = s ∨
          (∃ k term, process clock rpc reply s = countVote k rpc.src term s) ∨
          ∃ k, process clock rpc reply s = countProbe k rpc.src s) := by
  unfold processEvent process
  split
  · split_ifs
    · exact Or.inr ⟨rfl, Or.inr (Or.inl ⟨_, _, rfl⟩)⟩
    · exact Or.inl ⟨_, _, rfl, rfl, rfl⟩
  · split_ifs
    · exact Or.inl ⟨_, _, rfl, rfl, rfl⟩
    · exact Or.inr ⟨rfl, Or.inr (Or.inr ⟨_, rfl⟩)⟩
    · exact Or.inr ⟨rfl, Or.inl rfl⟩
  · exact Or.inl ⟨_, _, rfl, rfl, rfl⟩
  · exact Or.inr ⟨rfl, Or.inl rfl⟩

/-- The call that a step makes on a node, if it makes one. -/
def nodeEvent (s : Cluster) : Event → Option (String × NodeEvent)
  | .becomeCandidate p clock => some (p, .becomeCandidate clock)
  | .propose p command => some (p, .propose command)
  | .proposeBatch p commands => some (p, .proposeBatch commands)
  | .proposeAbortTx p txId => some (p, .proposeAbortTx txId)
  | .resume k clock =>
      (s.calls[k]?).bind fun c => (c.2.nodeEvent clock).map fun e => (c.1, e)
  | .deliver i clock => (s.rpcs[i]?).map fun rpc => (rpc.dst, rpc.request.nodeEvent clock)
  | .receive j clock =>
      (s.replies[j]?).bind fun r =>
        (s.rpcs[r.1]?).bind fun rpc => (processEvent clock rpc r.2).map fun e => (rpc.src, e)
  | .becomePreCandidate _ | .leaderCheck _ | .restart _ _ => none

/-- Where the call `ne` on the node `p` comes from. -/
inductive NodeCall (s : Cluster) (p : String) (ne : NodeEvent) : Event → Prop where
  | candidate {clock : Clock} (hne : ne = .becomeCandidate clock) :
      NodeCall s p ne (.becomeCandidate p clock)
  | propose {command : Command} (hne : ne = .propose command) :
      NodeCall s p ne (.propose p command)
  | proposeBatch {commands : List Command} (hne : ne = .proposeBatch commands) :
      NodeCall s p ne (.proposeBatch p commands)
  | proposeAbortTx {txId : String} (hne : ne = .proposeAbortTx txId) :
      NodeCall s p ne (.proposeAbortTx p txId)
  | resume {k : Nat} {clock : Clock} {c : Call} (hk : s.calls[k]? = some (p, c))
      (hne : c.nodeEvent clock = some ne) : NodeCall s p ne (.resume k clock)
  | deliver {i : Nat} {clock : Clock} {rpc : Rpc} (hrpc : s.rpcs[i]? = some rpc)
      (hdst : rpc.dst = p) (hne : ne = rpc.request.nodeEvent clock) :
      NodeCall s p ne (.deliver i clock)
  | receive {j : Nat} {clock : Clock} {r : Nat × Reply} {rpc : Rpc}
      (hj : s.replies[j]? = some r) (hrpc : s.rpcs[r.1]? = some rpc) (hsrc : rpc.src = p)
      (hne : processEvent clock rpc r.2 = some ne) : NodeCall s p ne (.receive j clock)

theorem nodeCall_of_nodeEvent {s : Cluster} {e : Event} {p : String} {ne : NodeEvent}
    (h : s.nodeEvent e = some (p, ne)) : NodeCall s p ne e := by
  cases e with
  | becomeCandidate q clock =>
    obtain ⟨rfl, hne⟩ := Prod.mk.inj (Option.some.inj h)
    exact .candidate hne.symm
  | propose q command =>
    obtain ⟨rfl, hne⟩ := Prod.mk.inj (Option.some.inj h)
    exact .propose hne.symm
  | proposeBatch q commands =>
    obtain ⟨rfl, hne⟩ := Prod.mk.inj (Option.some.inj h)
    exact .proposeBatch hne.symm
  | proposeAbortTx q txId =>
    obtain ⟨rfl, hne⟩ := Prod.mk.inj (Option.some.inj h)
    exact .proposeAbortTx hne.symm
  | resume k clock =>
    obtain ⟨c, hk, hcall⟩ := Option.bind_eq_some_iff.mp h
    obtain ⟨ne', hne, heq⟩ := Option.map_eq_some_iff.mp hcall
    obtain ⟨rfl, rfl⟩ := Prod.mk.inj heq
    exact .resume hk hne
  | deliver i clock =>
    obtain ⟨rpc, hrpc, heq⟩ := Option.map_eq_some_iff.mp h
    obtain ⟨hdst, hne⟩ := Prod.mk.inj heq
    exact .deliver hrpc hdst hne.symm
  | receive j clock =>
    obtain ⟨r, hj, hr⟩ := Option.bind_eq_some_iff.mp h
    obtain ⟨rpc, hrpc, hprocess⟩ := Option.bind_eq_some_iff.mp hr
    obtain ⟨ne', hne, heq⟩ := Option.map_eq_some_iff.mp hprocess
    obtain ⟨hsrc, rfl⟩ := Prod.mk.inj heq
    exact .receive hj hrpc hsrc hne
  | becomePreCandidate | leaderCheck | restart => cases h

@[simp] theorem finish_nodes_self (p : String) (o : Outcome) (s : Cluster) :
    (finish p o s).nodes p = o.node := by
  have hset : (setNode p o.node s).nodes p = o.node := setNode_nodes_self p o.node s
  unfold finish
  cases o.poll <;> cases o.probe <;> exact hset

/-- A vote changes the counter and leads to at most one call. -/
theorem countVote_eq (k : Nat) (p : String) (term : Nat) (s : Cluster) :
    ∃ polls next, countVote k p term s = addCalls p next { s with polls := polls } ∧
      polls.length = s.polls.length ∧ (next = [] ∨ next = [.voteQuorum term]) := by
  unfold countVote
  split
  · exact ⟨s.polls, [], (addCalls_nil p s).symm, rfl, Or.inl rfl⟩
  · dsimp only
    split_ifs
    · exact ⟨_, [.voteQuorum term], rfl, List.length_set, Or.inr rfl⟩
    · exact ⟨_, [], (addCalls_nil p _).symm, List.length_set, Or.inl rfl⟩

theorem countProbe_eq (k : Nat) (p : String) (s : Cluster) :
    ∃ probes next, countProbe k p s = addCalls p next { s with probes := probes } ∧
      (next = [] ∨ next = [.preVoteQuorum]) := by
  unfold countProbe
  split
  · exact ⟨s.probes, [], (addCalls_nil p s).symm, Or.inl rfl⟩
  · dsimp only
    split_ifs
    · exact ⟨_, [.preVoteQuorum], rfl, Or.inr rfl⟩
    · exact ⟨_, [], (addCalls_nil p _).symm, Or.inl rfl⟩

theorem finish_nodes (p : String) (o : Outcome) (s : Cluster) :
    (finish p o s).nodes = Function.update s.nodes p o.node := by
  unfold finish
  cases o.poll <;> cases o.probe <;> rfl

/-- A step without a crash is a step of one node, or of none. -/
theorem step_nodes {m : Membership} {s s' : Cluster} {e : Event} (h : s.step m e = some s')
    (hcrash : ∀ p clock, e ≠ .restart p clock) :
    s.nodeEvent e = none ∧ s'.nodes = s.nodes ∨
      ∃ p ne n', s.nodeEvent e = some (p, ne) ∧ (s.nodes p).step ne = some n' ∧
        s'.nodes = Function.update s.nodes p n' := by
  cases e with
  | becomeCandidate p clock =>
    simp only [step] at h
    split_ifs at h
    obtain rfl := Option.some.inj h
    exact Or.inr ⟨p, _, _, rfl, rfl, rfl⟩
  | becomePreCandidate p =>
    simp only [step] at h
    split_ifs at h
    obtain rfl := Option.some.inj h
    exact Or.inl ⟨rfl, rfl⟩
  | propose p command =>
    simp only [step] at h
    split_ifs at h
    obtain rfl := Option.some.inj h
    exact Or.inr ⟨p, _, _, rfl, rfl, rfl⟩
  | proposeBatch p commands =>
    simp only [step] at h
    split_ifs at h
    obtain rfl := Option.some.inj h
    exact Or.inr ⟨p, _, _, rfl, rfl, rfl⟩
  | proposeAbortTx p txId =>
    simp only [step] at h
    split_ifs at h
    obtain rfl := Option.some.inj h
    exact Or.inr ⟨p, _, _, rfl, rfl, rfl⟩
  | leaderCheck p =>
    simp only [step] at h
    split_ifs at h <;> obtain rfl := Option.some.inj h <;> exact Or.inl ⟨rfl, rfl⟩
  | resume k clock =>
    simp only [step, Option.map_eq_some_iff] at h
    obtain ⟨c, hk, rfl⟩ := h
    rcases c.2.resume_node clock (s.nodes c.1) with ⟨hnone, hnode⟩ | ⟨ne, he, hstep⟩
    · refine Or.inl ⟨by simp [nodeEvent, hk, hnone], ?_⟩
      rw [finish_nodes, hnode, Function.update_eq_self]
    · exact Or.inr ⟨c.1, ne, _, by simp [nodeEvent, hk, he], hstep, finish_nodes _ _ _⟩
  | deliver i clock =>
    simp only [step, Option.map_eq_some_iff] at h
    obtain ⟨rpc, hrpc, rfl⟩ := h
    refine Or.inr ⟨rpc.dst, _, _, by simp [nodeEvent, hrpc]; rfl, ?_, rfl⟩
    cases rpc.request <;> rfl
  | receive j clock =>
    simp only [step, Option.bind_eq_some_iff] at h
    obtain ⟨r, hj, rpc, hrpc, h⟩ := h
    split_ifs at h
    obtain rfl := Option.some.inj h
    rcases process_cases clock rpc r.2
      { s with rpcs := s.rpcs.set r.1 { rpc with waiting := false } } with
      ⟨ne, n', he, hstep, heq⟩ | ⟨hnone, hcases⟩
    · exact Or.inr ⟨rpc.src, ne, n', by simp [nodeEvent, hj, hrpc, he], hstep, by rw [heq]; rfl⟩
    · refine Or.inl ⟨by simp [nodeEvent, hj, hrpc, hnone], ?_⟩
      rcases hcases with heq | ⟨k, term, heq⟩ | ⟨k, heq⟩
      · rw [heq]
      · obtain ⟨polls, next, hcount, -⟩ := countVote_eq k rpc.src term
          { s with rpcs := s.rpcs.set r.1 { rpc with waiting := false } }
        rw [heq, hcount]
        rfl
      · obtain ⟨probes, next, hcount, -⟩ := countProbe_eq k rpc.src
          { s with rpcs := s.rpcs.set r.1 { rpc with waiting := false } }
        rw [heq, hcount]
        rfl
  | restart p clock => exact absurd rfl (hcrash p clock)

/-- What a step does to one node. -/
theorem step_node {m : Membership} {s s' : Cluster} {e : Event} (h : s.step m e = some s')
    (p : String) :
    s'.nodes p = s.nodes p ∨
      (∃ ne, s.nodeEvent e = some (p, ne) ∧ (s.nodes p).step ne = some (s'.nodes p)) ∨
      ∃ clock, e = .restart p clock ∧ startup m p clock (s.nodes p) = some (s'.nodes p) := by
  by_cases hcrash : ∃ q clock, e = .restart q clock
  · obtain ⟨q, clock, rfl⟩ := hcrash
    simp only [step] at h
    split_ifs at h
    obtain ⟨n, hn, rfl⟩ := Option.map_eq_some_iff.mp h
    by_cases hpq : p = q
    · subst hpq
      exact Or.inr (Or.inr ⟨clock, rfl, by rw [setNode_nodes_self]; exact hn⟩)
    · exact Or.inl (Function.update_of_ne hpq _ _)
  · rcases step_nodes h (fun q clock he => hcrash ⟨q, clock, he⟩) with
      ⟨-, hnodes⟩ | ⟨q, ne, n', hne, hnstep, hnodes⟩
    · exact Or.inl (by rw [hnodes])
    · by_cases hpq : p = q
      · subst hpq
        exact Or.inr (Or.inl ⟨ne, hne, by rw [hnodes, Function.update_self]; exact hnstep⟩)
      · exact Or.inl (by rw [hnodes, Function.update_of_ne hpq])

/-- A node starts as a follower. -/
theorem startup_follower {m : Membership} {p : String} {clock : Clock} {n r : RaftNode}
    (h : startup m p clock n = some r) : r.state = .follower := by
  unfold startup at h
  split at h
  · cases h
  · obtain ⟨n₁, hrestore, rfl⟩ := Option.map_eq_some_iff.mp h
    obtain ⟨smr, config, peers', hreplay⟩ := replayLogs_eq clock n₁
    obtain ⟨-, sm₁, commitIndex, lastApplied, rfl⟩ := restoreFromSnapshot_eq hrestore
    rw [hreplay]
    rfl

/-! ## Messages are not taken back -/

/-- The same request; its task may have got a reply. -/
structure Keeps (s s' : Cluster) : Prop where
  rpc : ∀ {i : Nat} {rpc : Rpc}, s.rpcs[i]? = some rpc → ∃ rpc', s'.rpcs[i]? = some rpc' ∧
    rpc'.src = rpc.src ∧ rpc'.dst = rpc.dst ∧ rpc'.request = rpc.request
  replies : s.replies <+: s'.replies

theorem Keeps.of_append {s s' : Cluster} (rpcs : List Rpc) (replies : List (Nat × Reply))
    (hrpcs : s'.rpcs = s.rpcs ++ rpcs) (hreplies : s'.replies = s.replies ++ replies) :
    Keeps s s' := by
  refine ⟨fun {i rpc} hi => ⟨rpc, ?_, rfl, rfl, rfl⟩, hreplies ▸ List.prefix_append _ _⟩
  rw [hrpcs, List.getElem?_append_left (List.getElem?_eq_some_iff.mp hi).1, hi]

theorem Keeps.of_eq {s s' : Cluster} (hrpcs : s'.rpcs = s.rpcs)
    (hreplies : s'.replies = s.replies) :
    Keeps s s' :=
  .of_append [] [] (by rw [hrpcs, List.append_nil])
    (by rw [hreplies, List.append_nil])

theorem Keeps.trans {s t u : Cluster} (h : Keeps s t) (h' : Keeps t u) : Keeps s u := by
  refine ⟨fun hi => ?_, h.replies.trans h'.replies⟩
  obtain ⟨rpc₁, hi₁, hsrc₁, hdst₁, hreq₁⟩ := h.rpc hi
  obtain ⟨rpc₂, hi₂, hsrc₂, hdst₂, hreq₂⟩ := h'.rpc hi₁
  exact ⟨rpc₂, hi₂, hsrc₂.trans hsrc₁, hdst₂.trans hdst₁, hreq₂.trans hreq₁⟩

theorem finish_keeps (p : String) (o : Outcome) (s : Cluster) : Keeps s (finish p o s) := by
  have hpoll : ∀ round s, Keeps s (openPoll p round s) := fun round s =>
    .of_append _ [] rfl (List.append_nil _).symm
  have hprobe : ∀ round s, Keeps s (openProbe p round s) := fun round s =>
    .of_append _ [] rfl (List.append_nil _).symm
  have hsend : ∀ s, Keeps s (addCalls p o.next (send p o.sent s)) := fun s =>
    .of_append _ [] rfl (List.append_nil _).symm
  have hnode : Keeps s (setNode p o.node s) := .of_eq rfl rfl
  unfold finish
  cases o.poll with
  | none =>
    cases o.probe with
    | none => exact hnode.trans (hsend _)
    | some probe => exact (hnode.trans (hprobe probe _)).trans (hsend _)
  | some poll =>
    cases o.probe with
    | none => exact (hnode.trans (hpoll poll _)).trans (hsend _)
    | some probe => exact ((hnode.trans (hpoll poll _)).trans (hprobe probe _)).trans (hsend _)

theorem process_messages (clock : Clock) (rpc : Rpc) (reply : Reply) (s : Cluster) :
    (process clock rpc reply s).rpcs = s.rpcs ∧
      (process clock rpc reply s).replies = s.replies := by
  rcases process_cases clock rpc reply s with
    ⟨e, n', -, -, heq⟩ | ⟨-, heq | ⟨k, term, heq⟩ | ⟨k, heq⟩⟩
  · rw [heq]
    exact ⟨rfl, rfl⟩
  · rw [heq]
    exact ⟨rfl, rfl⟩
  · obtain ⟨polls, next, hcount, -⟩ := countVote_eq k rpc.src term s
    rw [heq, hcount]
    exact ⟨rfl, rfl⟩
  · obtain ⟨probes, next, hcount, -⟩ := countProbe_eq k rpc.src s
    rw [heq, hcount]
    exact ⟨rfl, rfl⟩

theorem step_keeps {m : Membership} {s s' : Cluster} {e : Event} (h : s.step m e = some s') :
    Keeps s s' := by
  cases e with
  | becomeCandidate p clock | becomePreCandidate p | propose p command
  | proposeBatch p commands | proposeAbortTx p txId =>
    simp only [step] at h
    split_ifs at h
    obtain rfl := Option.some.inj h
    exact .of_eq rfl rfl
  | leaderCheck p =>
    simp only [step] at h
    split_ifs at h <;> obtain rfl := Option.some.inj h <;> exact .of_eq rfl rfl
  | resume k clock =>
    simp only [step, Option.map_eq_some_iff] at h
    obtain ⟨c, -, rfl⟩ := h
    refine Keeps.trans ?_ (finish_keeps _ _ _)
    exact .of_eq rfl rfl
  | deliver i clock =>
    simp only [step, Option.map_eq_some_iff] at h
    obtain ⟨rpc, -, rfl⟩ := h
    exact .of_append [] _ (List.append_nil _).symm rfl
  | receive j clock =>
    simp only [step, Option.bind_eq_some_iff] at h
    obtain ⟨r, -, rpc, hrpc, h⟩ := h
    split_ifs at h
    obtain rfl := Option.some.inj h
    obtain ⟨hrpcs, hreplies⟩ := process_messages clock rpc r.2
      { s with rpcs := s.rpcs.set r.1 { rpc with waiting := false } }
    refine ⟨fun {i rpc'} hi => ?_, by rw [hreplies]⟩
    rw [hrpcs]
    by_cases hir : r.1 = i
    · subst hir
      obtain rfl : rpc = rpc' := Option.some.inj (hrpc.symm.trans hi)
      exact ⟨_, List.getElem?_set_self (List.getElem?_eq_some_iff.mp hi).1, rfl, rfl, rfl⟩
    · exact ⟨rpc', (List.getElem?_set_ne hir).trans hi, rfl, rfl, rfl⟩
  | restart p clock =>
    simp only [step] at h
    split_ifs at h
    obtain ⟨n, -, rfl⟩ := Option.map_eq_some_iff.mp h
    refine ⟨fun {i rpc} hi => ?_, List.prefix_rfl⟩
    refine ⟨_, List.getElem?_map .. |>.trans (by rw [hi]; rfl), ?_⟩
    dsimp only
    split_ifs <;> exact ⟨rfl, rfl, rfl⟩

/-- A reply is the answer of the node that handles a request. -/
theorem step_replies {m : Membership} {s s' : Cluster} {e : Event} (h : s.step m e = some s') :
    s'.replies = s.replies ∨ ∃ i clock rpc, e = .deliver i clock ∧ s.rpcs[i]? = some rpc ∧
      s'.rpcs = s.rpcs ∧
      s'.replies = s.replies ++ [(i, (rpc.request.handle clock (s.nodes rpc.dst)).1)] := by
  cases e with
  | becomeCandidate p clock | becomePreCandidate p | propose p command
  | proposeBatch p commands | proposeAbortTx p txId =>
    simp only [step] at h
    split_ifs at h
    obtain rfl := Option.some.inj h
    exact Or.inl rfl
  | leaderCheck p =>
    simp only [step] at h
    split_ifs at h <;> obtain rfl := Option.some.inj h <;> exact Or.inl rfl
  | resume k clock =>
    simp only [step, Option.map_eq_some_iff] at h
    obtain ⟨c, -, rfl⟩ := h
    refine Or.inl ?_
    unfold finish
    cases (c.2.resume clock (s.nodes c.1)).poll <;>
      cases (c.2.resume clock (s.nodes c.1)).probe <;> rfl
  | deliver i clock =>
    simp only [step, Option.map_eq_some_iff] at h
    obtain ⟨rpc, hrpc, rfl⟩ := h
    exact Or.inr ⟨i, clock, rpc, rfl, hrpc, rfl, rfl⟩
  | receive j clock =>
    simp only [step, Option.bind_eq_some_iff] at h
    obtain ⟨r, -, rpc, hrpc, h⟩ := h
    split_ifs at h
    obtain rfl := Option.some.inj h
    exact Or.inl (process_messages clock rpc r.2 _).2
  | restart p clock =>
    simp only [step] at h
    split_ifs at h
    obtain ⟨n, -, rfl⟩ := Option.map_eq_some_iff.mp h
    exact Or.inl rfl

end Cluster

end OxideKv
