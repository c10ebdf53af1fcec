import OxideKv.Raft.StateMachineSafety
import OxideKv.Raft.TxOutcome

/-!
# The fast-forward of a vote

A node that is asked for its vote on a transaction raises `commit_index` to
the `BeginTx` and applies what is before it, when its log is long enough.  It
does not compare the entries: the coordinator asks only once `match_index` says
that every peer has them.

`LogsStand` is the condition on the steps under which `match_index` is right.
`Agrees` is the invariant: from the poll of `match_index` on, the entries up to
the `BeginTx` are committed and in the logs of the coordinator and its peers.
-/

namespace OxideKv

open Quorum ReplicatedLog RaftNode Run

/-! ## The replicated log behind the calls of a transaction -/

/-- A part of the cluster changed, and the replicated log went along. -/
def Advanced (f : RaftNode → Nat) (m : Membership) (a : Past) (s' : Cluster) : Prop :=
  ∃ q a', Steps (majority m.members) LogEntry.term q a a' ∧ VoteRel m a'.ballot s' ∧
    LogRel f m a' s'

/-- The same but for the store and the two indices of what is applied. -/
structure SameRole (n n' : RaftNode) : Prop where
  nodeId : n'.nodeId = n.nodeId
  peers : n'.peers = n.peers
  currentConfig : n'.currentConfig = n.currentConfig
  currentTerm : n'.currentTerm = n.currentTerm
  voteFor : n'.voteFor = n.voteFor
  state : n'.state = n.state
  log : n'.log = n.log
  nextIndex : n'.nextIndex = n.nextIndex
  matchIndex : n'.matchIndex = n.matchIndex

section Nodes

variable {f : RaftNode → Nat} {m : Membership} {a : Past} {s : Cluster} {p : String}
  {n n' : RaftNode}

theorem Advanced.refl (hv : VoteRel m a.ballot s) (hl : LogRel f m a s) : Advanced f m a s :=
  ⟨"", a, Relation.ReflTransGen.refl, hv, hl⟩

theorem Advanced.addCalls {s' : Cluster} (h : Advanced f m a s') (hp : p ∈ m.members)
    (sync : Bool) : Advanced f m a (s'.addCalls p (if sync then [.syncLogs] else [])) := by
  obtain ⟨q, a', hsteps, hv, hl⟩ := h
  refine ⟨q, a', hsteps, hv.addCalls hp fun c hc => ?_, hl.addCalls fun round rest hc => ?_⟩
  · split_ifs at hc
    · obtain rfl := List.mem_singleton.mp hc
      trivial
    · cases hc
  · split_ifs at hc
    · cases List.mem_singleton.mp hc
    · cases hc

theorem NodeVotes.of_sameRole {b : Ballots} (h : NodeVotes m b p n) (hsame : SameRole n n') :
    NodeVotes m b p n' := by
  refine ⟨?_, ?_, ?_, ?_⟩
  · rw [hsame.voteFor, hsame.currentTerm]
    exact h.vote
  · rw [hsame.currentTerm]
    exact h.bound
  · rw [hsame.state, hsame.currentTerm, hsame.log]
    exact h.candidate
  · rw [hsame.state, hsame.currentTerm]
    exact h.leader

theorem NodeLog.of_sameRole (hf : IsSlack f) (h : NodeLog f m a p n) (hsame : SameRole n n')
    (hcommit : n'.commitIndex ≤ n.log.length)
    (hcommitted : Committed (majority m.members) LogEntry.term a n.currentTerm
      (n.log.take n'.commitIndex)) : NodeLog f m a p n' := by
  have hslack : f n ≤ f { n with commitIndex := n'.commitIndex } := hf.mono rfl List.prefix_rfl
  have hraised : NodeLog f m a p { n with commitIndex := n'.commitIndex } := by
    refine ⟨h.term, h.log, h.leads, fun hs q hq => ?_, h.next, h.candidate, hcommit, hcommitted⟩
    rcases h.matched hs q hq with hle | hle
    · exact Or.inl (hle.trans hslack)
    · exact Or.inr hle
  exact hraised.of_same hf (Grows.refl a) rfl rfl rfl hsame.currentTerm hsame.log hsame.state
    hsame.matchIndex hsame.nextIndex rfl

/-- The commit index of a node is raised to what is committed. -/
theorem advanced_sameRole (hf : IsSlack f) (hv : VoteRel m a.ballot s) (hl : LogRel f m a s)
    (hsame : SameRole (s.nodes p) n') (hcommit : n'.commitIndex ≤ (s.nodes p).log.length)
    (hcommitted : Committed (majority m.members) LogEntry.term a (s.nodes p).currentTerm
      ((s.nodes p).log.take n'.commitIndex)) : Advanced f m a (s.setNode p n') := by
  have hnode := (hl.node p).of_sameRole hf hsame hcommit hcommitted
  refine ⟨p, a, Relation.ReflTransGen.refl, hv.set_quiet ?_ ((hv.votes p).of_sameRole hsame) ?_,
    hl.setNode (matched_stay hl.numbered (hv.votes p)
      (.of_eq hsame.currentTerm hsame.voteFor) hnode)⟩
  · exact (hv.static p).of_same hsame.nodeId hsame.peers hsame.currentConfig hsame.log
  · exact ⟨hsame.currentTerm.ge, fun hs _ => ⟨hsame.state ▸ hs, hsame.log⟩⟩

theorem recordYes_sameRole (txId voter : String) (n : RaftNode) :
    SameRole n (n.recordYes txId voter) := ⟨rfl, rfl, rfl, rfl, rfl, rfl, rfl, rfl, rfl⟩

theorem advanced_recordYes (hf : IsSlack f) (hv : VoteRel m a.ballot s) (hl : LogRel f m a s)
    (txId voter : String) : Advanced f m a (s.setNode p ((s.nodes p).recordYes txId voter)) :=
  advanced_sameRole hf hv hl (recordYes_sameRole txId voter _) (hl.node p).commit
    (hl.node p).committed

theorem NodeVotes.stepDown {b : Ballots} (h : NodeVotes m b p n) {term : Nat}
    (hterm : n.MayAdopt term) : NodeVotes m b p (RaftNode.stepDown term n) := by
  obtain ⟨storage, -, -, -, heq⟩ := stepDown_eq term n
  rw [heq]
  rcases hterm with hlt | ⟨rfl, hnone⟩
  · refine ⟨?_, fun T hT => h.bound T (hlt.trans hT), nofun, nofun⟩
    show none = (b p term).map Prod.fst
    rw [h.bound term hlt]
    rfl
  · refine ⟨?_, h.bound, nofun, nofun⟩
    rw [← hnone]
    exact h.vote

/-- A node steps down to a term in which it has not voted. -/
theorem advanced_stepDown (hv : VoteRel m a.ballot s) (hl : LogRel f m a s) {term : Nat}
    (hterm : (s.nodes p).MayAdopt term) :
    Advanced f m a (s.setNode p ((s.nodes p).stepDown term)) := by
  have hle : (s.nodes p).currentTerm ≤ term := by
    rcases hterm with hlt | ⟨heq, -⟩ <;> omega
  have hvotes := (hv.votes p).stepDown hterm
  have hstatic := (hv.static p).roleMoved (stepDown_roleMoved term _)
  have hcast := stepDown_castsNoVote term (s.nodes p)
  obtain ⟨storage, -, -, -, heq⟩ := stepDown_eq term (s.nodes p)
  rw [heq] at hvotes hstatic hcast ⊢
  have hm : Matched f m a p
      { s.nodes p with
        storage := storage
        currentTerm := term
        state := .follower
        voteFor := none } _ :=
    matched_passive hl.inv hl.numbered (hl.node p) hle rfl le_rfl nofun nofun
  refine ⟨p, _, hm.steps, ?_, hl.setNode hm⟩
  rw [hm.ballot, observe_of_castsNoVote (hv.votes p) hcast]
  exact hv.set_quiet hstatic hvotes ⟨hle, nofun⟩

/-- A proposal. -/
theorem advanced_call (hf : IsSlack f) (hv : VoteRel m a.ballot s) (hl : LogRel f m a s)
    (hp : p ∈ m.members) {e : NodeEvent} (hstep : (s.nodes p).step e = some n')
    (he : (∃ command, e = .propose command ∧ command.isPlain = true) ∨
      ∃ commands, e = .proposeBatch commands ∧ ∀ c ∈ commands, c.isPlain = true) :
    Advanced f m a (s.setNode p n') := by
  rcases he with ⟨command, rfl, hplain⟩ | ⟨commands, rfl, hplain⟩
  all_goals
    have hv' := hv.call_node hstep trivial hplain nofun nofun nofun
    obtain ⟨a', hsteps, hballot, hl'⟩ :=
      hl.call_node hf hv hp hstep hplain trivial trivial nofun nofun nofun nofun
    exact ⟨p, a', hsteps, hballot ▸ hv', hl'⟩

/-! ## The vote request -/

/-- What `handle_tx_vote_request` does to a node of a fixed membership. -/
theorem handleTxVoteRequest_forward (clock : Clock) (req : VoteRequest) (hplain : PlainLog n.log)
    (hle : n.commitIndex ≤ n.log.length) :
    (handleTxVoteRequest clock req n).2 = n ∨
      n.currentTerm < req.term ∧ (handleTxVoteRequest clock req n).2 = stepDown req.term n ∨
      SameRole n (handleTxVoteRequest clock req n).2 ∧
        ((handleTxVoteRequest clock req n).2.commitIndex = n.commitIndex ∨
          (handleTxVoteRequest clock req n).2.commitIndex = req.lastLogIndex ∧
            req.lastLogIndex ≤ n.log.length) ∧
        (handleTxVoteRequest clock req n).2.lastApplied =
          max n.lastApplied (handleTxVoteRequest clock req n).2.commitIndex := by
  have happly : ∃ sm c, (c = n.commitIndex ∨ c = req.lastLogIndex ∧ c ≤ n.log.length) ∧
      applyLogs clock (fastForwardCommit req.lastLogIndex n) =
        { n with stateMachine := sm, commitIndex := c, lastApplied := max n.lastApplied c } := by
    rcases fastForwardCommit_eq req.lastLogIndex n with heq | ⟨-, hlen, heq⟩ <;> rw [heq]
    · obtain ⟨sm, happly⟩ := applyLogs_plain clock hplain hle
      exact ⟨sm, n.commitIndex, Or.inl rfl, happly⟩
    · obtain ⟨sm, happly⟩ :=
        @applyLogs_plain clock { n with commitIndex := req.lastLogIndex } hplain hlen
      exact ⟨sm, req.lastLogIndex, Or.inr ⟨rfl, hlen⟩, happly⟩
  obtain ⟨sm, c, hc, happly⟩ := happly
  have hcommit : c = n.commitIndex ∨ c = req.lastLogIndex ∧ req.lastLogIndex ≤ n.log.length := by
    rcases hc with hc | ⟨rfl, hlen⟩
    · exact Or.inl hc
    · exact Or.inr ⟨rfl, hlen⟩
  rcases handleTxVoteRequest_cases clock req n with
    heq | ⟨hlt, heq⟩ | ⟨-, -, heq | heq⟩ <;> rw [heq]
  · exact Or.inl rfl
  · exact Or.inr (Or.inl ⟨hlt, rfl⟩)
  · rw [happly]
    exact Or.inr (Or.inr ⟨⟨rfl, rfl, rfl, rfl, rfl, rfl, rfl, rfl, rfl⟩, hcommit, rfl⟩)
  · rw [happly]
    exact Or.inr (Or.inr ⟨⟨rfl, rfl, rfl, rfl, rfl, rfl, rfl, rfl, rfl⟩, hcommit, rfl⟩)

/-- The request is good: the node has the entries in question, and they are
committed. -/
theorem advanced_txVoteRequest (hf : IsSlack f) (hv : VoteRel m a.ballot s)
    (hl : LogRel f m a s) (clock : Clock) {req : VoteRequest} {l : List LogEntry}
    (hlen : l.length = req.lastLogIndex) (hholds : Holds m a l (s.nodes p)) :
    Advanced f m a (s.setNode p (handleTxVoteRequest clock req (s.nodes p)).2) := by
  have hnode := hl.node p
  rcases handleTxVoteRequest_forward clock req (hv.static p).plain hnode.commit with
    heq | ⟨hlt, heq⟩ | ⟨hsame, hcommit, -⟩
  · rw [heq, Cluster.setNode_self]
    exact .refl hv hl
  · rw [heq]
    exact advanced_stepDown hv hl (Or.inl hlt)
  · refine advanced_sameRole hf hv hl hsame ?_ ?_
    · rcases hcommit with heq | ⟨heq, hle⟩ <;> rw [heq]
      · exact hnode.commit
      · exact hle
    · rcases hcommit with heq | ⟨heq, -⟩ <;> rw [heq]
      · exact hnode.committed
      · rw [← hlen, ← List.prefix_iff_eq_take.mp hholds.1]
        exact hholds.2

end Nodes

/-! ## What the calls rely on -/

/-- `p` has applied the entries `l`, and they are committed. -/
structure Reached (m : Membership) (a : Past) (s : Cluster) (p : String) (l : List LogEntry) :
    Prop where
  holds : Holds m a l (s.nodes p)
  applied : l.length ≤ (s.nodes p).lastApplied

/-- The peers of `p` have them too. -/
structure Spread (m : Membership) (a : Past) (s : Cluster) (p : String) (l : List LogEntry) :
    Prop extends Reached m a s p l where
  peers : ∀ q ∈ m.peers p, Holds m a l (s.nodes q)

/-- What is true of the `BeginTx` of a call on `p`. -/
def TxPhase.Agrees (m : Membership) (a : Past) (s : Cluster) (p : String) : TxPhase → Prop
  | .waitReplication beginIndex _ => ∃ l, l.length = beginIndex ∧ Reached m a s p l
  | .readRound beginIndex => ∃ l, l.length = beginIndex ∧ Spread m a s p l
  | .recordOwn round =>
      round.peerAddrs = m.peers p ∧ ∃ l, l.length = round.beginIndex ∧ Spread m a s p l
  | _ => True

/-- What is true of a vote request that a call on `p` has sent. -/
def VoteRpc.Agrees (m : Membership) (a : Past) (s : Cluster) (p : String) (rpc : VoteRpc) : Prop :=
  ∃ l, l.length = rpc.req.lastLogIndex ∧ l <+: rpc.log ∧ Reached m a s p l ∧
    Holds m a l (s.nodes rpc.dst)

/-- What the nodes hold and have applied, they go on to hold and have applied. -/
structure Carries (m : Membership) (a a' : Past) (s s' : Cluster) : Prop where
  holds : ∀ {l p}, Holds m a l (s.nodes p) → Holds m a' l (s'.nodes p)
  applied : ∀ p, (s.nodes p).lastApplied ≤ (s'.nodes p).lastApplied

section Carries

variable {m : Membership} {a a' : Past} {s s' : Cluster} {p : String} {l : List LogEntry}

theorem Reached.carry (h : Reached m a s p l) (hc : Carries m a a' s s') : Reached m a' s' p l :=
  ⟨hc.holds h.holds, h.applied.trans (hc.applied p)⟩

theorem Spread.carry (h : Spread m a s p l) (hc : Carries m a a' s s') : Spread m a' s' p l :=
  ⟨h.toReached.carry hc, fun q hq => hc.holds (h.peers q hq)⟩

theorem TxPhase.Agrees.carry {phase : TxPhase} (h : phase.Agrees m a s p)
    (hc : Carries m a a' s s') : phase.Agrees m a' s' p := by
  cases phase with
  | waitReplication beginIndex polled =>
    obtain ⟨l, hlen, hreached⟩ := h
    exact ⟨l, hlen, hreached.carry hc⟩
  | readRound beginIndex =>
    obtain ⟨l, hlen, hspread⟩ := h
    exact ⟨l, hlen, hspread.carry hc⟩
  | recordOwn round =>
    obtain ⟨hpeers, l, hlen, hspread⟩ := h
    exact ⟨hpeers, l, hlen, hspread.carry hc⟩
  | _ => trivial

theorem VoteRpc.Agrees.carry {rpc : VoteRpc} (h : rpc.Agrees m a s p)
    (hc : Carries m a a' s s') : rpc.Agrees m a' s' p := by
  obtain ⟨l, hlen, hlog, hreached, hholds⟩ := h
  exact ⟨l, hlen, hlog, hreached.carry hc, hc.holds hholds⟩

end Carries

/-! ## The critical sections -/

section Turns

variable {m : Membership} {a : Past} {s : Cluster} {c : TxCall} {turn : TxTurn}

/-- The poll of `match_index` succeeds on a leader that has applied `l`. -/
theorem Reached.spread (hl : LogRel (fun _ => 0) m a s) {p : String} {l : List LogEntry}
    (h : Reached m a s p l) (hs : (s.nodes p).state = .leader)
    (hall : ∀ q ∈ m.peers p, l.length ≤ (s.nodes p).matchIndexFor q) : Spread m a s p l := by
  refine ⟨h, fun q hq => ?_⟩
  have hnode := hl.node p
  obtain ⟨r, hr, -⟩ := hnode.leads hs
  have hack : l.length ≤ a.ack q (s.nodes p).currentTerm := by
    have hmatch := hall q hq
    rcases hnode.matched hs q hq with hzero | hmatched
    · omega
    · omega
  refine ⟨?_, ?_⟩
  · rw [← (hl.node q).log]
    exact acked_prefix_log hl.inv hr hack h.holds.2 le_rfl
  · rcases Nat.eq_zero_or_pos l.length with hnil | hpos
    · rw [List.eq_nil_of_length_eq_zero hnil]
      exact Committed.nil
    · have hterm := hl.inv.ack_term (hpos.trans_le hack)
      rw [(hl.node q).term] at hterm
      exact h.holds.2.grows (Grows.refl a) hterm

theorem collected_agrees (p : String) (round : TxRound) (results : List VoteResult) :
    (round.collected results).Agrees m a s p := by
  unfold TxRound.collected
  split_ifs <;> trivial

theorem ofPropose_agrees {n : RaftNode} {r : Bool × RaftNode} {txId p : String}
    {next : RaftNode → TxPhase} (hnext : (next r.2).Agrees m a s p) :
    (TxTurn.ofPropose n r txId next).phase.Agrees m a s p := by
  unfold TxTurn.ofPropose
  dsimp only
  split_ifs
  · exact hnext
  · trivial

/-- What a call relies on when it gives the lock back. -/
theorem TxCall.Turns.agrees (hv : VoteRel m a.ballot s) (hl : LogRel (fun _ => 0) m a s)
    (h : c.Turns (s.nodes c.node) turn) (hphase : c.phase.Agrees m a s c.node) :
    turn.phase.Agrees m a s c.node := by
  cases h with
  | batch | begins | decides => exact ofPropose_agrees trivial
  | begun h happlied =>
    rename_i i polled
    have hnode := hl.node c.node
    have hle := happlied.commit.trans hnode.commit
    refine ⟨(s.nodes c.node).log.take i, List.length_take_of_le hle, ⟨List.take_prefix _ _, ?_⟩, ?_⟩
    · exact hnode.committed.of_isPrefix (List.take_prefix_take_left happlied.commit)
    · rw [List.length_take_of_le hle]
      exact happlied.applied
  | replicated h hs hall =>
    rw [h] at hphase
    obtain ⟨l, rfl, hreached⟩ := hphase
    exact ⟨l, rfl, hreached.spread hl hs fun q hq => hall q ((hv.static _).peers ▸ hq)⟩
  | reads h =>
    rw [h] at hphase
    obtain ⟨l, rfl, hspread⟩ := hphase
    exact ⟨(hv.static _).peers, l, rfl, hspread⟩
  | asks h => exact collected_agrees _ _ _
  | waits h => cases hc : c.phase <;> rw [hc] at hphase <;> exact hphase
  | batchApplied | unreplicated | stepsDown | counts | refuses | decided | gaveUp => trivial

/-- A refusal that the coordinator gets to see leaves the vote of its node
alone. -/
def TxCall.KeepsTermAndVote (n : RaftNode) (c : TxCall) : Prop :=
  match c.phase with
  | .tally round ((_, .ok resp) :: _) _ _ =>
      n.KeepsTermAndVote (.coordinatorStepDown round.leaderTerm resp)
  | _ => True

instance (n : RaftNode) (c : TxCall) : Decidable (c.KeepsTermAndVote n) := by
  unfold TxCall.KeepsTermAndVote
  split <;> infer_instance

/-- The node of a call that has had the lock. -/
theorem TxCall.Turns.advanced (hv : VoteRel m a.ballot s) (hl : LogRel (fun _ => 0) m a s)
    (hp : c.node ∈ m.members) (hkeeps : c.KeepsTermAndVote (s.nodes c.node))
    (h : c.Turns (s.nodes c.node) turn) :
    Advanced (fun _ => 0) m a (s.setNode c.node turn.node) := by
  cases h with
  | batch h =>
    refine advanced_call zero_isSlack hv hl hp (e := .proposeBatch _) rfl (Or.inr ⟨_, rfl, ?_⟩)
    simp [Command.isPlain]
  | begins h | decides h =>
    exact advanced_call zero_isSlack hv hl hp (e := .propose _) rfl (Or.inl ⟨_, rfl, rfl⟩)
  | asks h | counts h => exact advanced_recordYes zero_isSlack hv hl _ _
  | stepsDown h hlt =>
    unfold KeepsTermAndVote at hkeeps
    rw [h] at hkeeps
    unfold coordinatorStepDown
    rw [if_pos hlt]
    split_ifs with hs
    · exact advanced_stepDown hv hl (hkeeps hlt hs)
    · rw [Cluster.setNode_self]
      exact .refl hv hl
  | batchApplied | begun | unreplicated | replicated | reads | refuses | decided | gaveUp
  | waits =>
    rw [Cluster.setNode_self]
    exact .refl hv hl

end Turns

namespace TxCluster

/-! ## Steps -/

/-- A step of the cluster that keeps the logs and `match_index` right, with
nothing on record from an earlier term. -/
def LogsStand (s : TxCluster) : TxEvent → Prop
  | .base e => OxideKv.LogsStand (fun _ => 0) s.base e
  | .resume k _ => ∀ c ∈ s.calls[k]?, c.KeepsTermAndVote (s.base.nodes c.node)
  | _ => True

instance (s : TxCluster) (e : TxEvent) : Decidable (s.LogsStand e) := by
  unfold LogsStand
  split <;> infer_instance

/-- The cluster, the replicated log behind it and what the calls rely on. -/
structure Agrees (m : Membership) (a : Past) (s : TxCluster) : Prop where
  votes : VoteRel m a.ballot s.base
  logs : LogRel (fun _ => 0) m a s.base
  member : ∀ {k : Nat} {c : TxCall}, s.calls[k]? = some c → c.node ∈ m.members
  call : ∀ {k : Nat} {c : TxCall}, s.calls[k]? = some c → c.phase.Agrees m a s.base c.node
  rpc : ∀ rpc ∈ s.votes, ∃ c, s.calls[rpc.call]? = some c ∧ rpc.Agrees m a s.base c.node

theorem start_agrees (m : Membership) : Agrees m State.init (start m) :=
  ⟨start_voteRel m, start_logRel _ m, nofun, nofun, nofun⟩

section Steps

variable {m : Membership} {a : Past} {s s' : TxCluster} {e : TxEvent}

/-- The replicated log goes along with a step. -/
theorem step_advanced (h : s.Agrees m a) (hstand : s.LogsStand e) (hstep : s.step m e = some s') :
    Advanced (fun _ => 0) m a s'.base := by
  have hsame : Advanced (fun _ => 0) m a s.base := .refl h.votes h.logs
  cases e with
  | base e =>
    obtain ⟨t, ht, rfl⟩ := Option.map_eq_some_iff.mp hstep
    obtain ⟨q, a', hsteps, hballot, hlogs⟩ := step_logRel zero_isSlack h.votes h.logs hstand ht
    have hvotes := step_voteRel h.votes hstand.votes.1 hstand.votes.2 ht
    exact ⟨q, a', hsteps, hballot ▸ hvotes, hlogs⟩
  | coordinateTx p txId ops =>
    simp only [step] at hstep
    split_ifs at hstep
    obtain rfl := Option.some.inj hstep
    exact hsame
  | resume k expired =>
    obtain ⟨c, hk, hc⟩ := Option.bind_eq_some_iff.mp hstep
    obtain ⟨turn, hturn, rfl⟩ := Option.map_eq_some_iff.mp hc
    have hp := h.member hk
    exact ((TxCall.resume_turns hturn).advanced h.votes h.logs hp (hstand c hk)).addCalls hp _
  | vote k j =>
    obtain ⟨c, -, hstep⟩ := Option.bind_eq_some_iff.mp hstep
    obtain ⟨r, -, hstep⟩ := Option.bind_eq_some_iff.mp hstep
    obtain ⟨rpc, -, hstep⟩ := Option.bind_eq_some_iff.mp hstep
    split at hstep
    · split_ifs at hstep
      obtain rfl := Option.some.inj hstep
      exact hsame
    · cases hstep
  | voteFailed k failure =>
    obtain ⟨c, -, hstep⟩ := Option.bind_eq_some_iff.mp hstep
    split at hstep
    · obtain ⟨addr, -, rfl⟩ := Option.map_eq_some_iff.mp hstep
      exact hsame
    · cases hstep
  | cancel k =>
    obtain ⟨c, -, hstep⟩ := Option.bind_eq_some_iff.mp hstep
    split_ifs at hstep
    obtain rfl := Option.some.inj hstep
    exact hsame
  | deliver i clock =>
    obtain ⟨rpc, hrpc, rfl⟩ := Option.map_eq_some_iff.mp hstep
    obtain ⟨c, -, l, hlen, -, -, hholds⟩ := h.rpc rpc (List.mem_of_getElem? hrpc)
    exact advanced_txVoteRequest zero_isSlack h.votes h.logs clock hlen hholds

/-- Nothing that is held or applied is lost. -/
theorem step_carries {a' : Past} {q : String} (h : s.Agrees m a) (hstand : s.LogsStand e)
    (hstep : s.step m e = some s')
    (hsteps : Steps (majority m.members) LogEntry.term q a a')
    (hlogs : LogRel (fun _ => 0) m a' s'.base) : Carries m a a' s.base s'.base := by
  refine ⟨fun hholds => hholds.steps h.logs hlogs hsteps, fun p => ?_⟩
  rcases step_node hstep p with hacts | ⟨clock, rfl, -⟩
  · exact hacts.consumes.applied
  · exact absurd trivial hstand.votes.1

/-- A call stays on its node. -/
theorem step_call_node {k : Nat} {c : TxCall} (hstep : s.step m e = some s')
    (hk : s.calls[k]? = some c) : ∃ c', s'.calls[k]? = some c' ∧ c'.node = c.node := by
  cases step_call hstep hk with
  | idle _ hk' => exact ⟨c, hk', rfl⟩
  | turn _ => exact ⟨_, finish_call hk _, rfl⟩
  | collects _ _ _ hk' => exact ⟨_, hk', rfl⟩
  | cancelled _ _ hk' => exact ⟨_, hk', rfl⟩
  | crashed hk' => exact ⟨_, hk', rfl⟩

/-- What a call relies on after a step. -/
theorem step_call_agrees {k : Nat} {c' : TxCall} (h : s.Agrees m a) (hstep : s.step m e = some s')
    (hk' : s'.calls[k]? = some c') :
    c'.node ∈ m.members ∧ c'.phase.Agrees m a s.base c'.node := by
  rcases Nat.lt_or_ge k s.calls.length with hlt | hge
  · obtain ⟨c, hk⟩ : ∃ c, s.calls[k]? = some c := ⟨_, List.getElem?_eq_getElem hlt⟩
    have hmember := h.member hk
    have hphase := h.call hk
    cases step_call hstep hk with
    | idle _ hidle =>
      obtain rfl := Option.some.inj (hidle.symm.trans hk')
      exact ⟨hmember, hphase⟩
    | turn hturns =>
      obtain rfl := Option.some.inj ((finish_call hk _).symm.trans hk')
      have hagrees := hturns.agrees h.votes h.logs hphase
      exact ⟨hmember, hagrees⟩
    | collects _ _ _ hcollects =>
      obtain rfl := Option.some.inj (hcollects.symm.trans hk')
      exact ⟨hmember, collected_agrees _ _ _⟩
    | cancelled _ _ hcancelled =>
      obtain rfl := Option.some.inj (hcancelled.symm.trans hk')
      exact ⟨hmember, trivial⟩
    | crashed hcrashed =>
      obtain rfl := Option.some.inj (hcrashed.symm.trans hk')
      exact ⟨hmember, trivial⟩
  · obtain ⟨p, txId, ops, rfl, rfl⟩ := step_new_call hstep hk' hge
    simp only [step] at hstep
    split_ifs at hstep with hp
    refine ⟨hp, ?_⟩
    unfold TxCall.begin
    dsimp only
    split_ifs <;> trivial

/-- The requests of a step. -/
theorem step_votes (hstep : s.step m e = some s') {rpc : VoteRpc} (hrpc : rpc ∈ s'.votes) :
    rpc ∈ s.votes ∨ ∃ c round, s.calls[rpc.call]? = some c ∧ c.phase = .recordOwn round ∧
      rpc.dst ∈ round.peerAddrs ∧ rpc.req = round.request c.txId ∧
      rpc.log = (s.base.nodes c.node).log := by
  cases e with
  | base e =>
    obtain ⟨t, -, rfl⟩ := Option.map_eq_some_iff.mp hstep
    exact Or.inl hrpc
  | coordinateTx p txId ops =>
    simp only [step] at hstep
    split_ifs at hstep
    obtain rfl := Option.some.inj hstep
    exact Or.inl hrpc
  | resume k expired =>
    obtain ⟨c, hk, hc⟩ := Option.bind_eq_some_iff.mp hstep
    obtain ⟨turn, hturn, rfl⟩ := Option.map_eq_some_iff.mp hc
    rcases List.mem_append.mp hrpc with hold | hnew
    · exact Or.inl hold
    · cases TxCall.resume_turns hturn with
      | asks hphase =>
        obtain ⟨q, hq, rfl⟩ := List.mem_map.mp hnew
        exact Or.inr ⟨c, _, hk, hphase, hq, rfl, rfl⟩
      | _ => cases hnew
  | vote k j =>
    obtain ⟨c, -, hstep⟩ := Option.bind_eq_some_iff.mp hstep
    obtain ⟨r, -, hstep⟩ := Option.bind_eq_some_iff.mp hstep
    obtain ⟨rpc, -, hstep⟩ := Option.bind_eq_some_iff.mp hstep
    split at hstep
    · split_ifs at hstep
      obtain rfl := Option.some.inj hstep
      exact Or.inl hrpc
    · cases hstep
  | voteFailed k failure =>
    obtain ⟨c, -, hstep⟩ := Option.bind_eq_some_iff.mp hstep
    split at hstep
    · obtain ⟨addr, -, rfl⟩ := Option.map_eq_some_iff.mp hstep
      exact Or.inl hrpc
    · cases hstep
  | cancel k =>
    obtain ⟨c, -, hstep⟩ := Option.bind_eq_some_iff.mp hstep
    split_ifs at hstep
    obtain rfl := Option.some.inj hstep
    exact Or.inl hrpc
  | deliver i clock =>
    obtain ⟨rpc', -, rfl⟩ := Option.map_eq_some_iff.mp hstep
    exact Or.inl hrpc

theorem step_agrees (h : s.Agrees m a) (hstand : s.LogsStand e) (hstep : s.step m e = some s') :
    ∃ a', s'.Agrees m a' := by
  obtain ⟨q, a', hsteps, hvotes, hlogs⟩ := step_advanced h hstand hstep
  have hcarries := step_carries h hstand hstep hsteps hlogs
  refine ⟨a', hvotes, hlogs, fun hk => (step_call_agrees h hstep hk).1,
    fun hk => (step_call_agrees h hstep hk).2.carry hcarries, fun rpc hrpc => ?_⟩
  have hrpc : ∃ c, s.calls[rpc.call]? = some c ∧ rpc.Agrees m a s.base c.node := by
    rcases step_votes hstep hrpc with hold | ⟨c, round, hk, hphase, hdst, hreq, hlog⟩
    · exact h.rpc rpc hold
    · have hcall := h.call hk
      rw [hphase] at hcall
      obtain ⟨hpeers, l, hlen, hspread⟩ := hcall
      refine ⟨c, hk, l, ?_, ?_, hspread.toReached, hspread.peers _ (hpeers ▸ hdst)⟩
      · rw [hreq]
        exact hlen
      · rw [hlog]
        exact hspread.holds.1
  obtain ⟨c, hk, hagrees⟩ := hrpc
  obtain ⟨c', hk', hnode⟩ := step_call_node hstep hk
  exact ⟨c', hk', hnode ▸ hagrees.carry hcarries⟩

theorem run_agrees {es : List TxEvent} (halong : Along (step m) LogsStand (start m) es)
    (hrun : run (step m) (start m) es = some s) : ∃ a, s.Agrees m a :=
  run_invariant (I := fun s => ∃ a, Agrees m a s)
    (fun ⟨_, h⟩ hstand hstep => step_agrees h hstand hstep) ⟨_, start_agrees m⟩ halong hrun

end Steps

/-! ## The entries of a fast-forward -/

/-- A majority has the entry in the log at the position `k`, and a node has
applied it there. -/
def IsCommitted (m : Membership) (s : TxCluster) (k : Nat) (entry : LogEntry) : Prop :=
  m.members.length <
      2 * m.members.countP (fun q => decide ((s.base.nodes q).log[k]? = some entry)) ∧
    ∃ q ∈ m.members, k < (s.base.nodes q).lastApplied ∧ (s.base.nodes q).log[k]? = some entry

/-- What the calls of a run rely on is committed. -/
theorem isCommitted_of_reached {m : Membership} {a : Past} {s : TxCluster} {p : String}
    {l : List LogEntry} {k : Nat} {entry : LogEntry} (h : Reached m a s.base p l)
    (hl : LogRel (fun _ => 0) m a s.base) (hp : p ∈ m.members) (hk : l[k]? = some entry) :
    IsCommitted m s k entry := by
  have hlt : k < l.length := (List.getElem?_eq_some_iff.mp hk).1
  have hne : l ≠ [] := by
    rintro rfl
    cases hk
  refine ⟨countP_of_majority (h.holds.2.stored hl.inv hne) fun q hq => ?_, p, hp,
    hlt.trans_le h.applied, getElem?_of_isPrefix h.holds.1 hk⟩
  have hprefix : l <+: a.log q := hq
  rw [(hl.node q).log] at hprefix
  exact decide_eq_true (getElem?_of_isPrefix hprefix hk)

/-- The entries that a node applies because a vote request has raised its
commit index are those of the coordinator, and they are committed. -/
theorem fast_forward_agreed {m : Membership} {es : List TxEvent} {s s' : TxCluster} {i k : Nat}
    {clock : Clock} {rpc : VoteRpc} (halong : Along (step m) LogsStand (start m) es)
    (hs : run (step m) (start m) es = some s) (hrpc : s.votes[i]? = some rpc)
    (hstep : s.step m (.deliver i clock) = some s')
    (hcommit : (s.base.nodes rpc.dst).commitIndex ≤ k)
    (hlow : (s.base.nodes rpc.dst).lastApplied ≤ k)
    (hhigh : k < (s'.base.nodes rpc.dst).lastApplied) :
    ∃ c entry, s.calls[rpc.call]? = some c ∧ (s'.base.nodes rpc.dst).log[k]? = some entry ∧
      rpc.log[k]? = some entry ∧ (s.base.nodes c.node).log[k]? = some entry ∧
      IsCommitted m s k entry := by
  obtain ⟨a, h⟩ := run_agrees halong hs
  obtain ⟨c, hc, l, hlen, hlog, hreached, hholds⟩ := h.rpc rpc (List.mem_of_getElem? hrpc)
  obtain ⟨rpc', hrpc', rfl⟩ := Option.map_eq_some_iff.mp hstep
  obtain rfl : rpc = rpc' := Option.some.inj (hrpc.symm.trans hrpc')
  dsimp only at hhigh ⊢
  rw [Cluster.setNode_nodes_self] at hhigh ⊢
  -- the index has moved on, so the node has raised its commit index
  have hforward : (handleTxVoteRequest clock rpc.req (s.base.nodes rpc.dst)).2.log =
      (s.base.nodes rpc.dst).log ∧ k < l.length := by
    rcases handleTxVoteRequest_forward clock rpc.req (h.votes.static rpc.dst).plain
      (h.logs.node rpc.dst).commit with heq | ⟨-, heq⟩ | ⟨hsame, hraised, happlied⟩
    · rw [heq] at hhigh
      omega
    · obtain ⟨storage, -, -, -, hdown⟩ := stepDown_eq rpc.req.term (s.base.nodes rpc.dst)
      rw [heq, hdown] at hhigh
      exact absurd hhigh (Nat.not_lt.mpr hlow)
    · refine ⟨hsame.log, ?_⟩
      rcases hraised with heq | ⟨heq, -⟩ <;> rw [happlied, heq] at hhigh <;> omega
  obtain ⟨entry, hentry⟩ : ∃ entry, l[k]? = some entry :=
    ⟨_, List.getElem?_eq_getElem hforward.2⟩
  refine ⟨c, entry, hc, ?_, getElem?_of_isPrefix hlog hentry,
    getElem?_of_isPrefix hreached.holds.1 hentry,
    isCommitted_of_reached hreached h.logs (h.member hc) hentry⟩
  rw [hforward.1]
  exact getElem?_of_isPrefix hholds.1 hentry

theorem fast_forward_agreed_two_nodes :
    ∃ s s' rpc, run (step twoNodes) (start twoNodes) (electedA ++ firstTx :: askedB) = some s ∧
      s.votes[0]? = some rpc ∧ rpc.dst = "b" ∧
      s.step twoNodes (.deliver 0 someClock) = some s' ∧
      (s.base.nodes "b").lastApplied = 0 ∧ 0 < (s'.base.nodes "b").lastApplied ∧
      ∃ entry, (s'.base.nodes "b").log[0]? = some entry ∧ rpc.log[0]? = some entry := by
  obtain ⟨s, hs, hrpc, hcommit, hlow, hstep⟩ : ∃ s,
      run (step twoNodes) (start twoNodes) (electedA ++ firstTx :: askedB) = some s ∧
      (s.votes[0]?).any (fun rpc => rpc.dst = "b") = true ∧
      (s.base.nodes "b").commitIndex = 0 ∧ (s.base.nodes "b").lastApplied = 0 ∧
      (s.step twoNodes (.deliver 0 someClock)).any
        (fun s' => 0 < (s'.base.nodes "b").lastApplied) = true :=
    exists_run_of_any (by decide +kernel)
  rw [Option.any_eq_true] at hrpc hstep
  obtain ⟨rpc, hrpc, hdst⟩ := hrpc
  obtain ⟨s', hstep, hhigh⟩ := hstep
  rw [decide_eq_true_eq] at hdst hhigh
  obtain ⟨c, entry, -, hentry, hlog, -⟩ := fast_forward_agreed (by decide +kernel) hs hrpc hstep
    (hdst ▸ hcommit.le) (hdst ▸ hlow.le) (hdst ▸ hhigh)
  exact ⟨s, s', rpc, hs, hrpc, hdst, hstep, hlow, hhigh, entry, hdst ▸ hentry, hlog⟩

/-- `b` confirms two entries of `a`, the next leader `c` replaces them on `a`,
and `a` is elected again. -/
def shorterLog : List Event :=
  [.becomeCandidate "a" someClock, .resume 0 someClock, .deliver 2 someClock,
    .deliver 3 someClock, .receive 0 someClock, .receive 1 someClock, .resume 0 someClock,
    .propose "a" (.set "x" "1"), .propose "a" (.set "y" "1"), .leaderCheck "a",
    .resume 0 someClock, .resume 0 someClock, .deliver 4 someClock, .receive 2 someClock,
    -- `c` is elected in term 2, and its entry reaches all but `b`
    .deliver 1 someClock, .becomeCandidate "c" someClock, .resume 1 someClock,
    .deliver 7 someClock, .deliver 8 someClock, .receive 4 someClock, .receive 5 someClock,
    .resume 1 someClock,
    .propose "c" (.set "x" "2"), .leaderCheck "c", .resume 1 someClock, .resume 1 someClock,
    .resume 1 someClock, .resume 1 someClock, .resume 1 someClock, .deliver 9 someClock,
    .deliver 11 someClock, .deliver 12 someClock,
    -- `a` is elected in term 3
    .becomeCandidate "a" someClock, .resume 2 someClock, .deliver 13 someClock,
    .deliver 15 someClock, .deliver 16 someClock, .receive 10 someClock, .receive 11 someClock,
    .resume 2 someClock]

/-- All but `b` get the `BeginTx`, and `a` asks for the votes. -/
def askedAll : List TxEvent :=
  [.coordinateTx "a" "t" [.put "x" "3"], .resume 0 false,
    .base (.resume 2 someClock), .base (.resume 2 someClock), .base (.resume 2 someClock),
    .base (.resume 2 someClock), .base (.resume 2 someClock), .base (.deliver 18 someClock),
    .base (.deliver 19 someClock), .base (.deliver 20 someClock), .base (.receive 12 someClock),
    .base (.receive 13 someClock), .base (.receive 14 someClock),
    .resume 0 false, .resume 0 false, .resume 0 false, .resume 0 false]

theorem fast_forward_of_replaced_entries :
    (∀ e ∈ shorterLog, ¬e.IsCrash) ∧
      ∃ s, run (step fiveNodes) (start fiveNodes) (shorterLog.map .base ++ askedAll) = some s ∧
        (s.base.nodes "a").state = .leader ∧
        (s.votes[0]?).any (fun rpc => rpc.dst = "b" ∧ rpc.req.term = 3 ∧
          rpc.log = (s.base.nodes "a").log) = true ∧
        (s.base.nodes "b").commitIndex = 0 ∧ (s.base.nodes "b").lastApplied = 0 ∧
        (s.step fiveNodes (.deliver 0 someClock)).any (fun s' =>
          (s'.base.nodes "b").lastApplied = 2 ∧
            (s'.base.nodes "b").log[0]? ≠ (s.base.nodes "a").log[0]? ∧
            (s'.base.nodes "b").log[1]? ≠ (s.base.nodes "a").log[1]?) = true :=
  ⟨by decide, exists_run_of_any (by decide +kernel)⟩

end TxCluster

end OxideKv
