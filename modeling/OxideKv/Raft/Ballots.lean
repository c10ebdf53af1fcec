import OxideKv.Lib.Quorum
import OxideKv.Lib.ReplicatedLog
import OxideKv.Raft.Cluster
import OxideKv.Raft.Plain
import OxideKv.Raft.TermVote

/-!
# The votes of a cluster

A node overwrites its vote when it enters a later term, so the votes of the
past are kept beside the cluster: `Ballots` records for each node and term
whom the node voted for, and with which log.  `VoteRel` relates them to the
cluster: what a node stores is its vote of the present term, a granted reply
on the way stands for a recorded vote, and a counter counts recorded votes of
different nodes.

`step_voteRel` keeps the relation as long as no call takes a vote back
(`KeepsVotes`), and a leader then has the recorded votes of a majority.
-/

namespace OxideKv

open Quorum ReplicatedLog RaftNode

/-- Whom a node voted for in a term, and with which log. -/
abbrev Ballots := String → Nat → Option (String × List LogEntry)

/-- The records after a call has left the node `n` at `p`. -/
def observe (b : Ballots) (p : String) (n : RaftNode) : Ballots :=
  put b p n.currentTerm ((b p n.currentTerm).or (n.voteFor.map fun c => (c, n.log)))

/-- Nothing is taken back. -/
def BallotsGrow (b b' : Ballots) : Prop := ∀ q T x, b q T = some x → b' q T = some x

theorem observe_grows (b : Ballots) (p : String) (n : RaftNode) :
    BallotsGrow b (observe b p n) := by
  intro q T x hx
  unfold observe
  rw [put_apply]
  split_ifs with hc
  · obtain ⟨rfl, rfl⟩ := hc
    rw [hx]
    rfl
  · exact hx

theorem observe_of_ne {b : Ballots} {p q : String} (h : q ≠ p) (n : RaftNode) (T : Nat) :
    observe b p n q T = b q T := by
  unfold observe
  rw [put_apply, if_neg fun hc => h hc.1]

theorem observe_self (b : Ballots) (p : String) (n : RaftNode) :
    observe b p n p n.currentTerm =
      (b p n.currentTerm).or (n.voteFor.map fun c => (c, n.log)) := by
  unfold observe
  rw [put_apply, if_pos ⟨rfl, rfl⟩]

theorem observe_of_term_ne {b : Ballots} {p : String} {n : RaftNode} {T : Nat}
    (h : T ≠ n.currentTerm) : observe b p n p T = b p T := by
  unfold observe
  rw [put_apply, if_neg fun hc => h hc.2]

/-- Index and term of the last entry, as `get_last_log_info` reads them. -/
def lastLogInfo (log : List LogEntry) : Nat × Nat :=
  match log.getLast? with
  | some entry => (entry.index, entry.term)
  | none => (0, 0)

/-- The log that the pair describes is at least as up to date as `log`. -/
def InfoCovers (info : Nat × Nat) (log : List LogEntry) : Prop :=
  (lastLogInfo log).2 < info.2 ∨ info.2 = (lastLogInfo log).2 ∧ (lastLogInfo log).1 ≤ info.1

theorem logUpToDate_iff (n : RaftNode) (index term : Nat) :
    n.logUpToDate index term = true ↔ InfoCovers (index, term) n.log := by
  show (decide ((lastLogInfo n.log).2 < term) ||
    (term == (lastLogInfo n.log).2 && decide ((lastLogInfo n.log).1 ≤ index))) = true ↔ _
  simp [InfoCovers]

/-! ## The relation -/

/-- What stays the same about a node of a fixed membership. -/
structure Static (m : Membership) (p : String) (n : RaftNode) : Prop where
  nodeId : n.nodeId = p
  peers : n.peers = m.peers p
  config : n.currentConfig = .simple (serverAt p :: (m.peers p).map serverAt)
  plain : PlainLog n.log

/-- A majority voted for `p` in the term. -/
def Won (m : Membership) (b : Ballots) (p : String) (T : Nat) : Prop :=
  (majority m.members).IsQuorum { q | ∃ l, b q T = some (p, l) }

theorem Won.grows {m : Membership} {b b' : Ballots} {p : String} {T : Nat} (h : Won m b p T)
    (hg : BallotsGrow b b') : Won m b' p T :=
  (majority m.members).mono (fun _ hq => hq.imp fun _ hl => hg _ _ _ hl) h

/-- The records of a node and its state. -/
structure NodeVotes (m : Membership) (b : Ballots) (p : String) (n : RaftNode) : Prop where
  vote : n.voteFor = (b p n.currentTerm).map Prod.fst
  bound : ∀ T, n.currentTerm < T → b p T = none
  candidate : n.state = .candidate → b p n.currentTerm = some (p, n.log)
  leader : n.state = .leader → Won m b p n.currentTerm

/-- `q` granted the request. -/
def Granted (b : Ballots) (q : String) (args : RequestVoteArgs) : Prop :=
  ∃ l, b q args.term = some (args.candidateId, l)

theorem Granted.grows {b b' : Ballots} {q : String} {args : RequestVoteArgs}
    (h : Granted b q args) (hg : BallotsGrow b b') : Granted b' q args :=
  h.imp fun _ hl => hg _ _ _ hl

/-- A vote for the node `n`.  While `n` is still a candidate of the term, its
log covers the one of the voter. -/
structure CastFor (n : RaftNode) (T : Nat) (l : List LogEntry) : Prop where
  term : T ≤ n.currentTerm
  covers : n.currentTerm = T → n.state = .candidate → InfoCovers (lastLogInfo n.log) l

/-- The request is one of the round `k`. -/
def Rpc.asks (k : Nat) (rpc : Rpc) : Bool :=
  match rpc.request with
  | .requestVote k' _ => k' == k
  | _ => false

def CallOk (m : Membership) (polls : List Tally) (p : String) : Call → Prop
  | .voteQuorum term => ∃ (k : Nat) (tally : Tally), polls[k]? = some tally ∧
      tally.round.args.candidateId = p ∧ tally.round.args.term = term ∧
      tally.round.totalNodes / 2 < tally.votesReceived
  | .enterPreVote round => round.peers = m.peers p
  | .preVoteAlone => m.peers p = []
  | .syncPeers _ rest => ∀ q ∈ rest, q ∈ m.peers p
  | _ => True

/-- While the candidate that asked is still one, in the term it asked in, its
log is the one it asked with. -/
structure AskedBy (n : RaftNode) (args : RequestVoteArgs) : Prop where
  term : args.term ≤ n.currentTerm
  info : n.currentTerm = args.term → n.state = .candidate →
    lastLogInfo n.log = (args.lastLogIndex, args.lastLogTerm)

structure PollOk (m : Membership) (b : Ballots) (nodes : String → RaftNode) (rpcs : List Rpc)
    (k : Nat) (tally : Tally) : Prop where
  member : tally.round.args.candidateId ∈ m.members
  peers : tally.round.peers = m.peers tally.round.args.candidateId
  asked : AskedBy (nodes tally.round.args.candidateId) tally.round.args
  dsts : (rpcs.filter (Rpc.asks k)).map Rpc.dst = tally.round.peers
  voters : ∃ voters : List String, voters.Nodup ∧ tally.votesReceived = voters.length + 1 ∧
    ∀ q ∈ voters, Granted b q tally.round.args ∧
      ∃ rpc ∈ rpcs, rpc.asks k = true ∧ rpc.dst = q ∧ rpc.waiting = false

def RequestOk (polls : List Tally) (src : String) : Request → Prop
  | .requestVote k args => ∃ tally, polls[k]? = some tally ∧ tally.round.args = args ∧
      args.candidateId = src
  | .preVote _ _ => True
  | .appendEntries args => PlainLog args.entries

structure RpcOk (m : Membership) (polls : List Tally) (rpc : Rpc) : Prop where
  src : rpc.src ∈ m.members
  dst : rpc.dst ∈ m.peers rpc.src
  request : RequestOk polls rpc.src rpc.request

def ReplyOk (b : Ballots) (rpc : Rpc) (reply : Reply) : Prop :=
  ∀ k args r, rpc.request = .requestVote k args → reply = .vote r → r.voteGranted = true →
    Granted b rpc.dst args

structure VoteRel (m : Membership) (b : Ballots) (s : Cluster) : Prop where
  static : ∀ p, Static m p (s.nodes p)
  votes : ∀ p, NodeVotes m b p (s.nodes p)
  cast : ∀ {q T c l}, b q T = some (c, l) → CastFor (s.nodes c) T l
  member : ∀ c ∈ s.calls, c.1 ∈ m.members
  call : ∀ c ∈ s.calls, CallOk m s.polls c.1 c.2
  poll : ∀ {k tally}, s.polls[k]? = some tally → PollOk m b s.nodes s.rpcs k tally
  rpc : ∀ rpc ∈ s.rpcs, RpcOk m s.polls rpc
  reply : ∀ r ∈ s.replies, ∃ rpc, s.rpcs[r.1]? = some rpc ∧ ReplyOk b rpc r.2

/-- What `sync_logs` sends is a part of the log. -/
theorem syncPeer_plain {n : RaftNode} {round : SyncRound} {peer : String}
    {args : AppendEntriesArgs} (h : PlainLog n.log) (hsync : n.syncPeer round peer = some args) :
    PlainLog args.entries := by
  obtain ⟨-, -, -, -, -, ⟨-, -, hentries⟩ | ⟨-, hentries⟩⟩ := syncPeer_cases hsync
  · intro e he
    rw [hentries] at he
    exact h e (List.mem_of_mem_drop he)
  · intro e he
    rw [hentries] at he
    cases he

theorem VoteRound.peers_eq_nil {round : VoteRound} (h : round.totalNodes = 1) :
    round.peers = [] := by
  unfold VoteRound.totalNodes at h
  exact List.eq_nil_of_length_eq_zero (by omega)

/-! ## What stays the same -/

/-- The calls of a node of fixed membership. -/
def NodeEvent.IsPlain : NodeEvent → Prop
  | .propose command => command.isPlain = true
  | .proposeBatch commands => ∀ c ∈ commands, c.isPlain = true
  | .appendEntries _ args => PlainLog args.entries
  | .proposeAddNode _ | .proposeRemoveNode _ | .txVoteRequest _ _ | .installSnapshot _ _
  | .coordinatorStepDown _ _ | .maybeSnapshot _ => False
  | _ => True

section StaticSteps

variable {m : Membership} {p : String} {n n' : RaftNode}

theorem Static.of_same (h : Static m p n) (hid : n'.nodeId = n.nodeId)
    (hpeers : n'.peers = n.peers) (hconfig : n'.currentConfig = n.currentConfig)
    (hlog : n'.log = n.log) : Static m p n' :=
  ⟨hid.trans h.nodeId, hpeers.trans h.peers, hconfig.trans h.config, hlog ▸ h.plain⟩

theorem Static.of_appends (h : Static m p n) (ha : Appends (fun c => c.isPlain = true) n n') :
    Static m p n' := by
  obtain ⟨storage, entries, rfl, -, -, hplain⟩ := ha
  refine ⟨h.nodeId, h.peers, h.config, fun e he => ?_⟩
  rcases List.mem_append.mp he with he | he
  · exact h.plain e he
  · exact hplain e he

theorem Static.roleMoved (h : Static m p n) (hmoved : RoleMoved n n') : Static m p n' := by
  obtain ⟨storage, -, -, -, _, _, _, _, _, rfl⟩ := hmoved
  exact h.of_same rfl rfl rfl rfl

theorem Static.maybeCommit (h : Static m p n) (clock : Clock) :
    Static m p (maybeCommit clock n) := by
  rcases maybeCommit_plain clock h.plain with heq | ⟨c, sm, -, -, -, -, -, heq⟩ <;> rw [heq]
  · exact h
  · exact h.of_same rfl rfl rfl rfl

theorem Static.handleAppendEntries (h : Static m p n) (clock : Clock)
    {args : AppendEntriesArgs} (hplain : PlainLog args.entries) :
    Static m p (handleAppendEntries clock args n).2 := by
  rcases handleAppendEntries_cases clock args n with
    ⟨_, heq⟩ | ⟨⟨hle, _⟩, ⟨_, heq⟩ | ⟨_, heq⟩⟩ <;> rw [heq]
  · exact h
  · obtain ⟨storage, -, -, -, hfollow⟩ := followLeader_eq clock hle
    rw [hfollow]
    exact h.of_same rfl rfl rfl rfl
  · obtain ⟨sm, storage, haccept⟩ := acceptEntries_plain clock hle h.plain hplain
    rw [haccept]
    exact ⟨h.nodeId, h.peers, h.config, plainLog_merge h.plain hplain⟩

/-- A call of fixed membership leaves the membership alone. -/
theorem step_static {e : NodeEvent} (h : Static m p n) (he : e.IsPlain)
    (hstep : n.step e = some n') : Static m p n' := by
  cases e with
  | propose command =>
    obtain rfl := Option.some.inj hstep
    exact h.of_appends (propose_appends he n)
  | proposeBatch commands =>
    obtain rfl := Option.some.inj hstep
    exact h.of_appends (proposeBatch_appends he n)
  | proposeAbortTx txId =>
    obtain rfl := Option.some.inj hstep
    exact h.of_appends (proposeAbortTx_appends (P := fun c => c.isPlain = true) rfl n)
  | requestVote | preVote | becomeCandidate | enterPreVote | preVoteAlone | preVoteStale
  | preVoteQuorum | voteQuorum | voteRefused =>
    exact h.roleMoved (step_roleMoved hstep rfl)
  | appendEntries clock args =>
    obtain rfl := Option.some.inj hstep
    exact h.handleAppendEntries clock he
  | syncAlone clock =>
    obtain rfl := Option.some.inj hstep
    unfold syncAlone
    split_ifs
    · exact h.maybeCommit clock
    · exact h
  | appendReply clock peer args reply =>
    obtain rfl := Option.some.inj hstep
    unfold appendReply
    dsimp only
    split_ifs
    · have hset : Static m p
          { n with
            matchIndex := insertIndex n.matchIndex peer (args.prevLogIndex + args.entries.length)
            nextIndex :=
              insertIndex n.nextIndex peer (args.prevLogIndex + args.entries.length + 1)
            lastQuorumHeartbeatAt := some clock.now } := h.of_same rfl rfl rfl rfl
      exact hset.maybeCommit clock
    · exact h.roleMoved (stepDown_roleMoved reply.term n)
    · exact h.of_same rfl rfl rfl rfl
    · exact h
  | proposeAddNode | proposeRemoveNode | txVoteRequest | installSnapshot | coordinatorStepDown
  | maybeSnapshot => exact absurd he id

/-- The call casts no vote. -/
def CastsNoVote (n n' : RaftNode) : Prop :=
  ∀ c, n'.voteFor = some c → n'.currentTerm = n.currentTerm ∧ n.voteFor = some c

theorem CastsNoVote.of_eq (hterm : n'.currentTerm = n.currentTerm)
    (hvote : n'.voteFor = n.voteFor) : CastsNoVote n n' :=
  fun _ hc => ⟨hterm, hvote ▸ hc⟩

theorem CastsNoVote.refl (n : RaftNode) : CastsNoVote n n := .of_eq rfl rfl

theorem CastsNoVote.of_none (h : n'.voteFor = none) : CastsNoVote n n' := by
  intro c hc
  rw [h] at hc
  cases hc

theorem stepDown_castsNoVote (term : Nat) (n : RaftNode) : CastsNoVote n (stepDown term n) := by
  obtain ⟨storage, -, -, -, heq⟩ := stepDown_eq term n
  rw [heq]
  exact .of_none rfl

theorem maybeCommit_castsNoVote (clock : Clock) (n : RaftNode) :
    CastsNoVote n (maybeCommit clock n) := by
  obtain ⟨c, -, h⟩ := maybeCommit_extends clock n
  exact .of_eq h.currentTerm h.voteFor

theorem handleAppendEntries_castsNoVote (clock : Clock) (args : AppendEntriesArgs)
    (n : RaftNode) : CastsNoVote n (handleAppendEntries clock args n).2 := by
  rcases handleAppendEntries_follows clock args n with heq | h
  · rw [heq]
    exact .refl n
  · by_cases hlt : n.currentTerm < args.term
    · exact .of_none (h.voteFor.trans (if_pos hlt))
    · have hterm : args.term = n.currentTerm := Nat.le_antisymm (Nat.not_lt.mp hlt) h.le
      exact .of_eq (h.currentTerm.trans hterm) (h.voteFor.trans (if_neg hlt))

/-- Where the vote of a node comes from: it was there before, it is the own
vote of a candidate, or it was asked for. -/
theorem step_vote {e : NodeEvent} (he : e.IsPlain) (hstep : n.step e = some n') :
    CastsNoVote n n' ∨ n'.voteFor = some n.nodeId ∨
      ∃ clock args, e = .requestVote clock args ∧ n'.voteFor = some args.candidateId ∧
        n'.currentTerm = args.term ∧ n'.log = n.log ∧
        InfoCovers (args.lastLogIndex, args.lastLogTerm) n.log := by
  have hpromote : ∀ clock, (promoteToCandidate clock n).voteFor = some n.nodeId := fun _ => rfl
  cases e with
  | propose | proposeBatch | proposeAbortTx =>
    have hproposed := step_proposed hstep rfl
    exact Or.inl (.of_eq hproposed.currentTerm hproposed.voteFor)
  | requestVote clock args =>
    obtain rfl := Option.some.inj hstep
    rcases handleRequestVote_cases clock args n with
      ⟨_, heq⟩ | ⟨hle, ⟨_, hlog, storage, -, -, -, heq⟩ | heq⟩ <;> rw [heq]
    · exact Or.inl (.refl n)
    · exact Or.inr (Or.inr ⟨clock, args, rfl, rfl, rfl, rfl, (logUpToDate_iff n _ _).mp hlog⟩)
    · refine Or.inl ?_
      unfold adoptNewer
      split_ifs
      · exact stepDown_castsNoVote args.term n
      · exact .refl n
  | preVote clock args =>
    obtain rfl := Option.some.inj hstep
    refine Or.inl ?_
    unfold handlePreVote
    dsimp only
    split_ifs <;> exact .of_eq rfl rfl
  | appendEntries clock args =>
    obtain rfl := Option.some.inj hstep
    exact Or.inl (handleAppendEntries_castsNoVote clock args n)
  | becomeCandidate clock =>
    obtain rfl := Option.some.inj hstep
    exact Or.inr (Or.inl (hpromote clock))
  | enterPreVote probedTerm =>
    obtain rfl := Option.some.inj hstep
    refine Or.inl ?_
    unfold enterPreVote
    split_ifs <;> exact .of_eq rfl rfl
  | preVoteAlone clock =>
    obtain rfl := Option.some.inj hstep
    rcases preVoteAlone_cases clock n with heq | helects
    · rw [heq]
      exact Or.inl (.refl n)
    · rcases helects.leader.2.2.2 with ⟨-, hterm, hvote⟩ | ⟨-, -, hvote⟩
      · exact Or.inl (.of_eq hterm hvote)
      · exact Or.inr (Or.inl hvote)
  | preVoteStale =>
    obtain rfl := Option.some.inj hstep
    refine Or.inl ?_
    unfold preVoteStale
    split_ifs <;> exact .of_eq rfl rfl
  | preVoteQuorum clock =>
    obtain rfl := Option.some.inj hstep
    unfold preVoteQuorum
    split_ifs
    · exact Or.inl (.refl n)
    · exact Or.inr (Or.inl (hpromote clock))
  | voteQuorum clock term =>
    obtain rfl := Option.some.inj hstep
    refine Or.inl ?_
    unfold voteQuorum becomeLeader
    split_ifs <;> exact .of_eq rfl rfl
  | voteRefused term reply =>
    obtain rfl := Option.some.inj hstep
    refine Or.inl ?_
    unfold voteRefused
    split_ifs
    · exact stepDown_castsNoVote reply.term n
    · exact .refl n
  | syncAlone clock =>
    obtain rfl := Option.some.inj hstep
    refine Or.inl ?_
    unfold syncAlone
    split_ifs
    · exact maybeCommit_castsNoVote clock n
    · exact .refl n
  | appendReply clock peer args reply =>
    obtain rfl := Option.some.inj hstep
    refine Or.inl ?_
    unfold appendReply
    dsimp only
    split_ifs
    · exact maybeCommit_castsNoVote clock
        { n with
          matchIndex := insertIndex n.matchIndex peer (args.prevLogIndex + args.entries.length)
          nextIndex := insertIndex n.nextIndex peer (args.prevLogIndex + args.entries.length + 1)
          lastQuorumHeartbeatAt := some clock.now }
    · exact stepDown_castsNoVote reply.term n
    · exact .of_eq rfl rfl
    · exact .refl n
  | proposeAddNode | proposeRemoveNode | txVoteRequest | installSnapshot | coordinatorStepDown
  | maybeSnapshot => exact absurd he id

end StaticSteps

/-! ## One node -/

theorem u64Succ_of_le {T : Nat} (h : T ≤ u64Succ T) : u64Succ T = T + 1 := by
  unfold u64Succ at h ⊢
  split_ifs at h ⊢ <;> omega

/-- The term does not go back, and a candidate of the same term is the one of
before. -/
structure Succeeds (n n' : RaftNode) : Prop where
  term : n.currentTerm ≤ n'.currentTerm
  candidate : n'.state = .candidate → n'.currentTerm = n.currentTerm →
    n.state = .candidate ∧ n'.log = n.log

theorem step_succeeds {n n' : RaftNode} {e : NodeEvent} (hstep : n.step e = some n')
    (hle : n.currentTerm ≤ n'.currentTerm) : Succeeds n n' := by
  refine ⟨hle, fun hcand hterm => ?_⟩
  rcases step_candidate hstep hcand with ⟨hs, -, hlog⟩ | ⟨hnext, -, -⟩
  · exact ⟨hs, hlog⟩
  · have hsucc := u64Succ_of_le (hnext ▸ hle)
    omega

theorem AskedBy.succeeds {n n' : RaftNode} {args : RequestVoteArgs} (h : AskedBy n args)
    (hn : Succeeds n n') : AskedBy n' args := by
  refine ⟨h.term.trans hn.term, fun hterm hcand => ?_⟩
  have hargs := h.term
  have hle := hn.term
  obtain ⟨hs, hlog⟩ := hn.candidate hcand (by omega)
  rw [hlog]
  exact h.info (by omega) hs

theorem CastFor.succeeds {n n' : RaftNode} {T : Nat} {l : List LogEntry} (h : CastFor n T l)
    (hn : Succeeds n n') : CastFor n' T l := by
  refine ⟨h.term.trans hn.term, fun hterm hcand => ?_⟩
  have hT := h.term
  have hle := hn.term
  obtain ⟨hs, hlog⟩ := hn.candidate hcand (by omega)
  rw [hlog]
  exact h.covers (by omega) hs

/-- The records of a node after a call that keeps its term and vote. -/
theorem NodeVotes.observe {m : Membership} {b : Ballots} {p : String} {n n' : RaftNode}
    {e : NodeEvent} (h : NodeVotes m b p n) (hid : n.nodeId = p) (hstep : n.step e = some n')
    (htv : TermVoteLe n n')
    (hwon : n.state ≠ .leader → n'.state = .leader →
      Won m (OxideKv.observe b p n') p n'.currentTerm) :
    NodeVotes m (OxideKv.observe b p n') p n' := by
  have hle := htv.term
  have hnext : n.currentTerm < n'.currentTerm →
      OxideKv.observe b p n' p n'.currentTerm = n'.voteFor.map fun c => (c, n'.log) := by
    intro hlt
    rw [observe_self, h.bound _ hlt]
    rfl
  refine ⟨?_, ?_, ?_, ?_⟩
  · rcases Nat.lt_or_eq_of_le hle with hlt | hsame
    · rw [hnext hlt, Option.map_map]
      cases n'.voteFor <;> rfl
    · rw [observe_self, ← hsame]
      cases hb : b p n.currentTerm with
      | none => cases n'.voteFor <;> rfl
      | some x =>
        have hvote := h.vote
        rw [hb] at hvote
        exact htv.vote hsame.symm x.1 hvote
  · intro T hT
    rw [observe_of_term_ne (by omega)]
    exact h.bound T (by omega)
  · intro hcand
    rcases step_candidate hstep hcand with ⟨hs, hsame, hlog⟩ | ⟨hterm, hvote, hlog⟩
    · rw [observe_self, hsame, h.candidate hs, hlog]
      rfl
    · have hsucc := u64Succ_of_le (hterm ▸ hle)
      rw [hnext (by omega), hvote, hid]
      rfl
  · intro hlead
    by_cases hs : n.state = .leader
    · rw [(step_leader hstep hs hlead).1]
      exact (h.leader hs).grows (observe_grows b p n')
    · exact hwon hs hlead

theorem NodeVotes.other {m : Membership} {b : Ballots} {p q : String} {n n' : RaftNode}
    (h : NodeVotes m b q n) (hne : q ≠ p) : NodeVotes m (OxideKv.observe b p n') q n := by
  refine ⟨?_, fun T hT => ?_, fun hs => ?_, fun hs => ?_⟩
  · rw [observe_of_ne hne]
    exact h.vote
  · rw [observe_of_ne hne]
    exact h.bound T hT
  · rw [observe_of_ne hne]
    exact h.candidate hs
  · exact (h.leader hs).grows (observe_grows b p n')

/-! ## The parts of a step -/

section Parts

variable {m : Membership} {b : Ballots} {s : Cluster}

theorem PollOk.of_nodes {b' : Ballots} {nodes nodes' : String → RaftNode} {rpcs : List Rpc}
    {k : Nat} {tally : Tally} (h : PollOk m b nodes rpcs k tally) (hg : BallotsGrow b b')
    (hasked : AskedBy (nodes' tally.round.args.candidateId) tally.round.args) :
    PollOk m b' nodes' rpcs k tally := by
  obtain ⟨voters, hnodup, hcount, hvoters⟩ := h.voters
  exact ⟨h.member, h.peers, hasked, h.dsts, voters, hnodup, hcount,
    fun q hq => ⟨(hvoters q hq).1.grows hg, (hvoters q hq).2⟩⟩

theorem infoCovers_self (log : List LogEntry) : InfoCovers (lastLogInfo log) log :=
  Or.inr ⟨rfl, le_rfl⟩

/-- The vote that a call casts. -/
theorem VoteRel.cast_new (h : VoteRel m b s) {p : String} {e : NodeEvent} {n' : RaftNode}
    (hstep : (s.nodes p).step e = some n') (hplain : e.IsPlain)
    (hasked : ∀ clock args, e = .requestVote clock args →
      args.candidateId ≠ p ∧ AskedBy (s.nodes args.candidateId) args)
    (hnone : b p n'.currentTerm = none) {c : String} (hvote : n'.voteFor = some c) :
    CastFor (Function.update s.nodes p n' c) n'.currentTerm n'.log := by
  rcases step_vote hplain hstep with hold | hself | ⟨clock, args, he, hcand, hterm, hlog, hcov⟩
  · -- a vote that was there before is on record
    obtain ⟨hsame, hc⟩ := hold c hvote
    have hrec := (h.votes p).vote
    rw [hc, ← hsame, hnone] at hrec
    cases hrec
  · obtain rfl : c = p := by
      rw [hvote, (h.static p).nodeId] at hself
      exact Option.some.inj hself
    rw [Function.update_self]
    exact ⟨le_rfl, fun _ _ => infoCovers_self _⟩
  · obtain rfl : c = args.candidateId := Option.some.inj (hvote.symm.trans hcand)
    obtain ⟨hne, hask⟩ := hasked clock args he
    rw [Function.update_of_ne hne, hterm, hlog]
    refine ⟨hask.term, fun hT hs => ?_⟩
    rw [hask.info hT hs]
    exact hcov

/-- The node `n'` in the place of the node `p`. -/
theorem VoteRel.set (h : VoteRel m b s) {b' : Ballots} {p : String} {n' : RaftNode}
    (hg : BallotsGrow b b') (hstatic : Static m p n')
    (hvotes : ∀ q, NodeVotes m b' q (Function.update s.nodes p n' q))
    (hn : Succeeds (s.nodes p) n')
    (hcast : ∀ {q T c l}, b' q T = some (c, l) → b q T = some (c, l) ∨
      CastFor (Function.update s.nodes p n' c) T l) : VoteRel m b' (s.setNode p n') := by
  refine ⟨fun q => ?_, hvotes, fun {q T c l} hb => ?_, h.member, h.call,
    fun {k tally} hk => ?_, h.rpc, fun r hr => ?_⟩
  · show Static m q (Function.update s.nodes p n' q)
    by_cases hq : q = p
    · subst hq
      rw [Function.update_self]
      exact hstatic
    · rw [Function.update_of_ne hq]
      exact h.static q
  · show CastFor (Function.update s.nodes p n' c) T l
    rcases hcast hb with hold | hnew
    · by_cases hc : c = p
      · subst hc
        rw [Function.update_self]
        exact (h.cast hold).succeeds hn
      · rw [Function.update_of_ne hc]
        exact h.cast hold
    · exact hnew
  · have hpoll := h.poll hk
    refine hpoll.of_nodes hg ?_
    show AskedBy (Function.update s.nodes p n' tally.round.args.candidateId) tally.round.args
    by_cases hq : tally.round.args.candidateId = p
    · rw [hq, Function.update_self]
      exact (hq ▸ hpoll.asked).succeeds hn
    · rw [Function.update_of_ne hq]
      exact hpoll.asked
  · obtain ⟨rpc, hrpc, hok⟩ := h.reply r hr
    exact ⟨rpc, hrpc, fun k args v hreq hv hgranted => (hok k args v hreq hv hgranted).grows hg⟩

/-- The node `n'` in the place of the node `p`, without a vote. -/
theorem VoteRel.set_quiet (h : VoteRel m b s) {p : String} {n' : RaftNode}
    (hstatic : Static m p n') (hvotes : NodeVotes m b p n') (hn : Succeeds (s.nodes p) n') :
    VoteRel m b (s.setNode p n') := by
  refine h.set (fun _ _ _ hb => hb) hstatic (fun q => ?_) hn Or.inl
  by_cases hq : q = p
  · subst hq
    rw [Function.update_self]
    exact hvotes
  · rw [Function.update_of_ne hq]
    exact h.votes q

/-- A call on the node `p`. -/
theorem VoteRel.setNode (h : VoteRel m b s) {p : String} {e : NodeEvent} {n' : RaftNode}
    (hstep : (s.nodes p).step e = some n') (hkeeps : (s.nodes p).KeepsTermAndVote e)
    (hplain : e.IsPlain)
    (hasked : ∀ clock args, e = .requestVote clock args →
      args.candidateId ≠ p ∧ AskedBy (s.nodes args.candidateId) args)
    (hwon : (s.nodes p).state ≠ .leader → n'.state = .leader →
      Won m (observe b p n') p n'.currentTerm) :
    VoteRel m (observe b p n') (s.setNode p n') := by
  have htv := (step_termVoteLe_iff hstep).mpr hkeeps
  refine h.set (observe_grows b p n') (step_static (h.static p) hplain hstep) (fun q => ?_)
    (step_succeeds hstep htv.term) (fun {q T c l} hb => ?_)
  · by_cases hq : q = p
    · subst hq
      rw [Function.update_self]
      exact (h.votes q).observe (h.static q).nodeId hstep htv hwon
    · rw [Function.update_of_ne hq]
      exact (h.votes q).other hq
  · by_cases hq : q = p ∧ T = n'.currentTerm
    · obtain ⟨rfl, rfl⟩ := hq
      cases hrec : b q n'.currentTerm with
      | some x =>
        rw [observe_grows b q n' _ _ _ hrec] at hb
        exact Or.inl hb
      | none =>
        rw [observe_self, hrec, Option.none_or, Option.map_eq_some_iff] at hb
        obtain ⟨c', hc', heq⟩ := hb
        obtain ⟨rfl, rfl⟩ := Prod.mk.inj heq
        exact Or.inr (h.cast_new hstep hplain hasked hrec hc')
    · unfold observe at hb
      rw [put_apply, if_neg hq] at hb
      exact Or.inl hb

/-- Calls are added. -/
theorem VoteRel.addCalls (h : VoteRel m b s) {p : String} (hp : p ∈ m.members)
    {calls : List Call} (hcalls : ∀ c ∈ calls, CallOk m s.polls p c) :
    VoteRel m b (s.addCalls p calls) := by
  refine ⟨h.static, h.votes, h.cast, fun c hc => ?_, fun c hc => ?_, h.poll, h.rpc, h.reply⟩
  · rcases List.mem_append.mp hc with hc | hc
    · exact h.member c hc
    · obtain ⟨c', -, rfl⟩ := List.mem_map.mp hc
      exact hp
  · rcases List.mem_append.mp hc with hc | hc
    · exact h.call c hc
    · obtain ⟨c', hc', rfl⟩ := List.mem_map.mp hc
      exact hcalls c' hc'

theorem VoteRel.eraseCall (h : VoteRel m b s) (k : Nat) :
    VoteRel m b { s with calls := s.calls.eraseIdx k } :=
  ⟨h.static, h.votes, h.cast, fun c hc => h.member c (List.mem_of_mem_eraseIdx hc),
    fun c hc => h.call c (List.mem_of_mem_eraseIdx hc), h.poll, h.rpc, h.reply⟩

/-- A reply is sent. -/
theorem VoteRel.addReply (h : VoteRel m b s) {i : Nat} {rpc : Rpc} {reply : Reply}
    (hrpc : s.rpcs[i]? = some rpc) (hok : ReplyOk b rpc reply) :
    VoteRel m b { s with replies := s.replies ++ [(i, reply)] } := by
  refine ⟨h.static, h.votes, h.cast, h.member, h.call, h.poll, h.rpc, fun r hr => ?_⟩
  rcases List.mem_append.mp hr with hr | hr
  · exact h.reply r hr
  · obtain rfl := List.mem_singleton.mp hr
    exact ⟨rpc, hrpc, hok⟩

/-- Requests other than those of a new round of votes are sent. -/
theorem VoteRel.addRpcs (h : VoteRel m b s) {rpcs : List Rpc}
    (hok : ∀ rpc ∈ rpcs, RpcOk m s.polls rpc) (hasks : ∀ rpc ∈ rpcs, ∀ k, rpc.asks k = false) :
    VoteRel m b { s with rpcs := s.rpcs ++ rpcs } := by
  refine ⟨h.static, h.votes, h.cast, h.member, h.call, fun {k tally} hk => ?_, fun rpc hr => ?_,
    fun r hr => ?_⟩
  · have hpoll := h.poll hk
    obtain ⟨voters, hnodup, hcount, hvoters⟩ := hpoll.voters
    refine ⟨hpoll.member, hpoll.peers, hpoll.asked, ?_, voters, hnodup, hcount, fun q hq => ?_⟩
    · have hnone : rpcs.filter (Rpc.asks k) = [] :=
        List.filter_eq_nil_iff.mpr fun rpc hr => by simp [hasks rpc hr k]
      rw [List.filter_append, hnone, List.append_nil]
      exact hpoll.dsts
    · obtain ⟨hgranted, rpc, hr, hrest⟩ := hvoters q hq
      exact ⟨hgranted, rpc, List.mem_append_left _ hr, hrest⟩
  · rcases List.mem_append.mp hr with hr | hr
    · exact h.rpc rpc hr
    · exact hok rpc hr
  · obtain ⟨rpc, hrpc, hrok⟩ := h.reply r hr
    refine ⟨rpc, ?_, hrok⟩
    show (s.rpcs ++ rpcs)[r.1]? = some rpc
    rw [List.getElem?_append_left (List.getElem?_eq_some_iff.mp hrpc).1]
    exact hrpc

/-- Rounds are added and their counters go up. -/
def PollsGrow (polls polls' : List Tally) : Prop :=
  ∀ {k : Nat} {tally : Tally}, polls[k]? = some tally → ∃ tally', polls'[k]? = some tally' ∧
    tally'.round = tally.round ∧ tally.votesReceived ≤ tally'.votesReceived

theorem pollsGrow_append (polls : List Tally) (tally : Tally) :
    PollsGrow polls (polls ++ [tally]) := by
  intro k tally' hk
  refine ⟨tally', ?_, rfl, le_rfl⟩
  rw [List.getElem?_append_left (List.getElem?_eq_some_iff.mp hk).1]
  exact hk

theorem getElem?_count {polls : List Tally} {k : Nat} {tally : Tally}
    (h : polls[k]? = some tally) :
    (polls.set k { tally with votesReceived := tally.votesReceived + 1 })[k]? =
      some { tally with votesReceived := tally.votesReceived + 1 } := by
  rw [List.getElem?_set_self (List.getElem?_eq_some_iff.mp h).1]

theorem pollsGrow_count {polls : List Tally} {k : Nat} {tally : Tally}
    (h : polls[k]? = some tally) :
    PollsGrow polls (polls.set k { tally with votesReceived := tally.votesReceived + 1 }) := by
  intro k' tally' hk'
  by_cases heq : k' = k
  · subst heq
    obtain rfl : tally = tally' := Option.some.inj (h.symm.trans hk')
    exact ⟨_, getElem?_count h, rfl, Nat.le_succ _⟩
  · refine ⟨tally', ?_, rfl, le_rfl⟩
    rw [List.getElem?_set_ne (Ne.symm heq)]
    exact hk'

theorem CallOk.grows {polls polls' : List Tally} {p : String} {c : Call}
    (h : CallOk m polls p c) (hg : PollsGrow polls polls') : CallOk m polls' p c := by
  cases c with
  | voteQuorum term =>
    obtain ⟨k, tally, hk, hcand, hterm, hcount⟩ := h
    obtain ⟨tally', hk', hround, hvotes⟩ := hg hk
    exact ⟨k, tally', hk', by rw [hround, hcand], by rw [hround, hterm], by rw [hround]; omega⟩
  | _ => exact h

theorem RpcOk.grows {polls polls' : List Tally} {rpc : Rpc} (h : RpcOk m polls rpc)
    (hg : PollsGrow polls polls') : RpcOk m polls' rpc := by
  refine ⟨h.src, h.dst, ?_⟩
  have hreq := h.request
  cases hr : rpc.request with
  | requestVote k args =>
    rw [hr] at hreq
    obtain ⟨tally, hk, hargs, hcand⟩ := hreq
    obtain ⟨tally', hk', hround, -⟩ := hg hk
    exact ⟨tally', hk', by rw [hround, hargs], hcand⟩
  | preVote k args => trivial
  | appendEntries args =>
    rw [hr] at hreq
    exact hreq

theorem RpcOk.lt_length {polls : List Tally} {rpc : Rpc} (h : RpcOk m polls rpc) {k : Nat}
    (hk : rpc.asks k = true) : k < polls.length := by
  have hreq := h.request
  unfold Rpc.asks at hk
  split at hk
  · rename_i k' args hr
    rw [hr] at hreq
    obtain ⟨tally, htally, -⟩ := hreq
    obtain rfl : k' = k := by simpa using hk
    exact (List.getElem?_eq_some_iff.mp htally).1
  · cases hk

/-- A round of votes is opened. -/
theorem VoteRel.openPoll (h : VoteRel m b s) {p : String} (hp : p ∈ m.members) :
    VoteRel m b (s.openPoll p (s.nodes p).voteRound) := by
  have hstatic := h.static p
  have hpeers : (s.nodes p).voteRound.peers = m.peers p := hstatic.peers
  have hcand : (s.nodes p).voteRound.args.candidateId = p := hstatic.nodeId
  have hg : PollsGrow s.polls
      (s.polls ++ [{ round := (s.nodes p).voteRound, votesReceived := 1 }]) :=
    pollsGrow_append s.polls _
  have hasks : ∀ k, ((s.nodes p).voteRound.peers.map fun q =>
      ({ src := p, dst := q, request := .requestVote s.polls.length (s.nodes p).voteRound.args,
         waiting := true } : Rpc)).filter (Rpc.asks k) =
      if s.polls.length = k then (s.nodes p).voteRound.peers.map fun q =>
        { src := p, dst := q, request := .requestVote s.polls.length (s.nodes p).voteRound.args,
          waiting := true } else [] := by
    intro k
    split_ifs with hk
    · exact List.filter_eq_self.mpr (by simp [Rpc.asks, hk])
    · exact List.filter_eq_nil_iff.mpr (by simp [Rpc.asks, hk])
  refine ⟨h.static, h.votes, h.cast, h.member, fun c hc => (h.call c hc).grows hg,
    fun {k tally} hk => ?_, fun rpc hr => ?_, fun r hr => ?_⟩
  · show PollOk m b s.nodes (s.rpcs ++ _) k tally
    have hk : (s.polls ++ [{ round := (s.nodes p).voteRound, votesReceived := 1 }])[k]? =
      some tally := hk
    rcases Nat.lt_or_ge k s.polls.length with hlt | hge
    · rw [List.getElem?_append_left hlt] at hk
      have hpoll := h.poll hk
      obtain ⟨voters, hnodup, hcount, hvoters⟩ := hpoll.voters
      refine ⟨hpoll.member, hpoll.peers, hpoll.asked, ?_, voters, hnodup, hcount, fun q hq => ?_⟩
      · rw [List.filter_append, hasks, if_neg (by omega), List.append_nil]
        exact hpoll.dsts
      · obtain ⟨hgranted, rpc, hr, hrest⟩ := hvoters q hq
        exact ⟨hgranted, rpc, List.mem_append_left _ hr, hrest⟩
    · -- the new round: nobody was asked before, and only the own vote counts
      rw [List.getElem?_append_right hge] at hk
      have hlt := (List.getElem?_eq_some_iff.mp hk).1
      have hlen : k = s.polls.length := by
        simp at hlt
        omega
      subst hlen
      obtain rfl : ({ round := (s.nodes p).voteRound, votesReceived := 1 } : Tally) = tally := by
        simpa using hk
      refine ⟨by rw [hcand]; exact hp, by rw [hcand, hpeers], ?_, ?_, [], List.nodup_nil, rfl,
        by simp⟩
      · rw [hcand]
        exact ⟨le_rfl, fun _ _ => rfl⟩
      · have hnone : s.rpcs.filter (Rpc.asks s.polls.length) = [] :=
          List.filter_eq_nil_iff.mpr fun rpc hr hk =>
            absurd ((h.rpc rpc hr).lt_length hk) (Nat.lt_irrefl _)
        rw [List.filter_append, hnone, hasks, if_pos rfl, List.nil_append, List.map_map]
        exact List.map_id _
  · rcases List.mem_append.mp hr with hr | hr
    · exact (h.rpc rpc hr).grows hg
    · obtain ⟨q, hq, rfl⟩ := List.mem_map.mp hr
      refine ⟨hp, hpeers ▸ hq, { round := (s.nodes p).voteRound, votesReceived := 1 }, ?_, rfl,
        hcand⟩
      show (s.polls ++ [_])[s.polls.length]? = _
      simp
  · obtain ⟨rpc, hrpc, hok⟩ := h.reply r hr
    refine ⟨rpc, ?_, hok⟩
    show (s.rpcs ++ _)[r.1]? = some rpc
    rw [List.getElem?_append_left (List.getElem?_eq_some_iff.mp hrpc).1]
    exact hrpc

/-- The same RPC, with its task done or still waiting. -/
structure Rpc.Later (rpc rpc' : Rpc) : Prop where
  src : rpc'.src = rpc.src
  dst : rpc'.dst = rpc.dst
  request : rpc'.request = rpc.request
  waiting : rpc.waiting = false → rpc'.waiting = false

theorem Rpc.Later.refl (rpc : Rpc) : rpc.Later rpc := ⟨rfl, rfl, rfl, id⟩

theorem Rpc.Later.asks {rpc rpc' : Rpc} (h : rpc.Later rpc') (k : Nat) :
    rpc'.asks k = rpc.asks k := by
  unfold Rpc.asks
  rw [h.request]

/-- Tasks stop waiting. -/
theorem later_set {rpcs : List Rpc} {i : Nat} {rpc : Rpc} (h : rpcs[i]? = some rpc) :
    List.Forall₂ Rpc.Later rpcs (rpcs.set i { rpc with waiting := false }) := by
  induction rpcs generalizing i with
  | nil => simp at h
  | cons r rpcs ih =>
    cases i with
    | zero =>
      obtain rfl : r = rpc := by simpa using h
      exact List.Forall₂.cons ⟨rfl, rfl, rfl, fun _ => rfl⟩
        (List.forall₂_same.mpr fun r _ => Rpc.Later.refl r)
    | succ i => exact List.Forall₂.cons (Rpc.Later.refl r) (ih (by simpa using h))

theorem later_dsts {P : Rpc → Bool} (hP : ∀ {rpc rpc' : Rpc}, rpc.Later rpc' → P rpc' = P rpc)
    {rpcs rpcs' : List Rpc} (h : List.Forall₂ Rpc.Later rpcs rpcs') :
    (rpcs'.filter P).map Rpc.dst = (rpcs.filter P).map Rpc.dst := by
  induction h with
  | nil => rfl
  | cons hr _ ih =>
    simp only [List.filter_cons, hP hr]
    split_ifs
    · rw [List.map_cons, List.map_cons, ih, hr.dst]
    · exact ih

theorem later_get {rpcs rpcs' : List Rpc} (h : List.Forall₂ Rpc.Later rpcs rpcs') :
    ∀ {i : Nat} {rpc : Rpc}, rpcs[i]? = some rpc → ∃ rpc', rpcs'[i]? = some rpc' ∧
      rpc.Later rpc' := by
  induction h with
  | nil => intro i rpc hr; simp at hr
  | cons hr _ ih =>
    intro i rpc hrpc
    cases i with
    | zero =>
      obtain rfl := Option.some.inj hrpc
      exact ⟨_, rfl, hr⟩
    | succ i => exact ih hrpc

theorem later_mem {rpcs rpcs' : List Rpc} (h : List.Forall₂ Rpc.Later rpcs rpcs') {rpc : Rpc}
    (hr : rpc ∈ rpcs) : ∃ rpc' ∈ rpcs', rpc.Later rpc' := by
  obtain ⟨i, hi⟩ := List.getElem?_of_mem hr
  obtain ⟨rpc', hi', hl⟩ := later_get h hi
  exact ⟨rpc', List.mem_of_getElem? hi', hl⟩

theorem later_mem_right {rpcs rpcs' : List Rpc} (h : List.Forall₂ Rpc.Later rpcs rpcs') :
    ∀ rpc' ∈ rpcs', ∃ rpc ∈ rpcs, rpc.Later rpc' := by
  induction h with
  | nil => simp
  | cons hr _ ih =>
    intro rpc' hmem
    rcases List.mem_cons.mp hmem with rfl | hmem
    · exact ⟨_, List.mem_cons_self, hr⟩
    · obtain ⟨rpc, hrpc, hl⟩ := ih rpc' hmem
      exact ⟨rpc, List.mem_cons_of_mem _ hrpc, hl⟩

theorem PollOk.later {nodes : String → RaftNode} {rpcs rpcs' : List Rpc} {k : Nat}
    {tally : Tally} (h : PollOk m b nodes rpcs k tally)
    (hl : List.Forall₂ Rpc.Later rpcs rpcs') : PollOk m b nodes rpcs' k tally := by
  obtain ⟨voters, hnodup, hcount, hvoters⟩ := h.voters
  have hdsts := (later_dsts (fun hr => hr.asks k) hl).trans h.dsts
  refine ⟨h.member, h.peers, h.asked, hdsts, voters, hnodup, hcount, fun q hq => ?_⟩
  obtain ⟨hgranted, rpc, hr, hasks, hdst, hwait⟩ := hvoters q hq
  obtain ⟨rpc', hr', hlater⟩ := later_mem hl hr
  exact ⟨hgranted, rpc', hr', (hlater.asks k).trans hasks, hlater.dst.trans hdst,
    hlater.waiting hwait⟩

theorem VoteRel.later (h : VoteRel m b s) {rpcs' : List Rpc}
    (hl : List.Forall₂ Rpc.Later s.rpcs rpcs') : VoteRel m b { s with rpcs := rpcs' } := by
  refine ⟨h.static, h.votes, h.cast, h.member, h.call, fun hk => (h.poll hk).later hl,
    fun rpc' hr' => ?_, fun r hr => ?_⟩
  · obtain ⟨rpc, hr, hlater⟩ := later_mem_right hl rpc' hr'
    have hok := h.rpc rpc hr
    exact ⟨hlater.src ▸ hok.src, by rw [hlater.dst, hlater.src]; exact hok.dst,
      by rw [hlater.src, hlater.request]; exact hok.request⟩
  · obtain ⟨rpc, hrpc, hok⟩ := h.reply r hr
    obtain ⟨rpc', hrpc', hlater⟩ := later_get hl hrpc
    refine ⟨rpc', hrpc', fun k args v hreq hv hgranted => ?_⟩
    rw [hlater.dst]
    exact hok k args v (hlater.request ▸ hreq) hv hgranted

/-- The task of a waiting RPC counts the vote it was granted. -/
theorem VoteRel.countVote (h : VoteRel m b s) {i k : Nat} {rpc : Rpc} {args : RequestVoteArgs}
    (hrpc : s.rpcs[i]? = some rpc) (hwait : rpc.waiting = true)
    (hreq : rpc.request = .requestVote k args) (hgranted : Granted b rpc.dst args) :
    VoteRel m b (Cluster.countVote k rpc.src args.term
      { s with rpcs := s.rpcs.set i { rpc with waiting := false } }) := by
  have hmem := List.mem_of_getElem? hrpc
  have hrpcOk := h.rpc rpc hmem
  obtain ⟨tally, hk, rfl, hcand⟩ : ∃ tally, s.polls[k]? = some tally ∧ tally.round.args = args ∧
      args.candidateId = rpc.src := by
    have := hrpcOk.request
    rwa [hreq] at this
  have hpoll := h.poll hk
  have hasks : rpc.asks k = true := by simp [Rpc.asks, hreq]
  have hlater := later_set hrpc
  have h₁ := h.later hlater
  obtain ⟨voters, hnodup, hcount, hvoters⟩ := hpoll.voters
  -- a peer is asked once in a round, and this task has not counted yet
  have hnew : rpc.dst ∉ voters := by
    intro hin
    obtain ⟨-, rpc₀, hr₀, hasks₀, hdst₀, hwait₀⟩ := hvoters _ hin
    have hdsts : ((s.rpcs.filter (Rpc.asks k)).map Rpc.dst).Nodup := by
      rw [hpoll.dsts, hpoll.peers]
      exact (List.nodup_cons.mp (m.nodup_peers hpoll.member)).2
    have heq := List.inj_on_of_nodup_map hdsts (List.mem_filter.mpr ⟨hr₀, hasks₀⟩)
      (List.mem_filter.mpr ⟨hmem, hasks⟩) hdst₀
    rw [heq, hwait] at hwait₀
    cases hwait₀
  have hset := getElem?_count hk
  have hg : PollsGrow s.polls
      (s.polls.set k { tally with votesReceived := tally.votesReceived + 1 }) := pollsGrow_count hk
  have h₂ : VoteRel m b
      { s with
        rpcs := s.rpcs.set i { rpc with waiting := false }
        polls := s.polls.set k { tally with votesReceived := tally.votesReceived + 1 } } := by
    refine ⟨h₁.static, h₁.votes, h₁.cast, h₁.member, fun c hc => (h₁.call c hc).grows hg,
      fun {k' tally'} hk' => ?_, fun rpc' hr' => (h₁.rpc rpc' hr').grows hg, h₁.reply⟩
    have hk' : (s.polls.set k { tally with votesReceived := tally.votesReceived + 1 })[k']? =
      some tally' := hk'
    by_cases heq : k' = k
    · subst heq
      obtain rfl := Option.some.inj (hset.symm.trans hk')
      have hpoll₁ := hpoll.later hlater
      obtain ⟨rpc', hr', hl⟩ := later_get hlater hrpc
      have hr'' : { rpc with waiting := false } ∈ s.rpcs.set i { rpc with waiting := false } :=
        List.mem_set (List.getElem?_eq_some_iff.mp hrpc).1 _
      refine ⟨hpoll₁.member, hpoll₁.peers, hpoll₁.asked, hpoll₁.dsts, rpc.dst :: voters,
        List.nodup_cons.mpr ⟨hnew, hnodup⟩, by simp [hcount], fun q hq => ?_⟩
      rcases List.mem_cons.mp hq with rfl | hq
      · exact ⟨hgranted, _, hr'', hasks, rfl, rfl⟩
      · obtain ⟨hgr, rpc₀, hr₀, hasks₀, hdst₀, hwait₀⟩ := hvoters q hq
        obtain ⟨rpc₁, hr₁, hl₁⟩ := later_mem hlater hr₀
        exact ⟨hgr, rpc₁, hr₁, (hl₁.asks k').trans hasks₀, hl₁.dst.trans hdst₀,
          hl₁.waiting hwait₀⟩
    · rw [List.getElem?_set_ne (Ne.symm heq)] at hk'
      exact h₁.poll hk'
  unfold Cluster.countVote
  simp only [hk]
  split_ifs with hmaj
  · refine h₂.addCalls hrpcOk.src fun c hc => ?_
    obtain rfl := List.mem_singleton.mp hc
    exact ⟨k, _, hset, hcand, rfl, hmaj⟩
  · exact h₂

theorem VoteRel.countProbe (h : VoteRel m b s) {p : String} (hp : p ∈ m.members) (k : Nat) :
    VoteRel m b (Cluster.countProbe k p s) := by
  obtain ⟨probes, next, heq, hnext⟩ := Cluster.countProbe_eq k p s
  have hset : VoteRel m b { s with probes := probes } :=
    ⟨h.static, h.votes, h.cast, h.member, h.call, h.poll, h.rpc, h.reply⟩
  rw [heq]
  refine hset.addCalls hp fun c hc => ?_
  rcases hnext with rfl | rfl
  · cases hc
  · obtain rfl := List.mem_singleton.mp hc
    trivial

theorem VoteRel.openProbe (h : VoteRel m b s) {p : String} (hp : p ∈ m.members)
    {round : VoteRound} (hpeers : round.peers = m.peers p) :
    VoteRel m b (s.openProbe p round) := by
  have h₁ : VoteRel m b
      { s with
        rpcs := s.rpcs ++ round.peers.map fun q =>
          { src := p, dst := q, request := .preVote s.probes.length round.args,
            waiting := true } } := by
    refine h.addRpcs (fun rpc hr => ?_) fun rpc hr k => ?_
    · obtain ⟨q, hq, rfl⟩ := List.mem_map.mp hr
      exact ⟨hp, hpeers ▸ hq, trivial⟩
    · obtain ⟨q, hq, rfl⟩ := List.mem_map.mp hr
      rfl
  exact ⟨h₁.static, h₁.votes, h₁.cast, h₁.member, h₁.call, h₁.poll, h₁.rpc, h₁.reply⟩

theorem VoteRel.send (h : VoteRel m b s) {p : String} (hp : p ∈ m.members)
    {sent : List (String × AppendEntriesArgs)}
    (hsent : ∀ x ∈ sent, x.1 ∈ m.peers p ∧ PlainLog x.2.entries) :
    VoteRel m b (s.send p sent) := by
  refine h.addRpcs (fun rpc hr => ?_) fun rpc hr k => ?_
  · obtain ⟨x, hx, rfl⟩ := List.mem_map.mp hr
    exact ⟨hp, (hsent x hx).1, (hsent x hx).2⟩
  · obtain ⟨x, hx, rfl⟩ := List.mem_map.mp hr
    rfl

end Parts

end OxideKv
