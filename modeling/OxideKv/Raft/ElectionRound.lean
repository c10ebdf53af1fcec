import OxideKv.Raft.PreVote

/-!
# An election among the nodes that can be reached

The followers `M` of one term, one of them `c` with a log that is not behind
theirs, and nothing else that happens in the cluster: the timer of `c` fires,
its calls go on, its requests to the nodes of `M` are delivered, any number of
times and in any order, and it processes the replies.

`Round` is what the requests of `c` have led to: a node of `M` grants the probe
as long as it has not voted, and it votes for `c` (`Voter`).  `Phase` follows
`c` from its first probe to leader.  Only nodes of `M` answer
(`Round.answered_le`), and in the end all of them have (`Round.le_answered`).
-/

namespace OxideKv

open RaftNode

/-- The followers `M` of the term `T`; `c` is one of them, it knows the members,
and its log is not behind theirs. -/
structure LiveMajority (m : Membership) (M : List String) (c : String) (T : Nat) (s : Cluster) :
    Prop where
  nodup : M.Nodup
  members : ∀ q ∈ M, q ∈ m.members
  mem : c ∈ M
  nodeId : (s.nodes c).nodeId = c
  peers : (s.nodes c).peers = m.peers c
  followers : ∀ q ∈ M, (s.nodes q).state = .follower
  term : ∀ q ∈ M, (s.nodes q).currentTerm = T
  upToDate : ∀ q ∈ M, (s.nodes q).logUpToDate (s.nodes c).getLastLogInfo.1
    (s.nodes c).getLastLogInfo.2 = true

namespace Cluster

/-- What happens after the timer of `c` has fired in `s₀`: the new calls, the
new requests to nodes of `M` and the new replies. -/
def AmongMajority (M : List String) (s₀ s : Cluster) : Event → Prop
  | .resume k _ => s₀.calls.length ≤ k
  | .deliver i _ => s₀.rpcs.length ≤ i ∧ ∀ rpc ∈ s.rpcs[i]?, rpc.dst ∈ M
  | .receive j _ => s₀.replies.length ≤ j
  | _ => False

instance (M : List String) (s₀ s : Cluster) (e : Event) : Decidable (AmongMajority M s₀ s e) :=
  decidable_of_iff
    ((match e with
      | .resume k _ => decide (s₀.calls.length ≤ k)
      | .deliver i _ => decide (s₀.rpcs.length ≤ i ∧ ∀ rpc ∈ s.rpcs[i]?, rpc.dst ∈ M)
      | .receive j _ => decide (s₀.replies.length ≤ j)
      | _ => false) = true) (by cases e <;> simp [AmongMajority, -Bool.decide_and])

/-- No new call waits, and every new request to a node of `M` has been
answered. -/
structure Delivered (M : List String) (s₀ s : Cluster) : Prop where
  calls : s.calls.length = s₀.calls.length
  answered : ∀ rpc ∈ s.rpcs.drop s₀.rpcs.length, rpc.dst ∈ M → rpc.waiting = false

instance (M : List String) (s₀ s : Cluster) : Decidable (Delivered M s₀ s) :=
  decidable_of_iff (s.calls.length = s₀.calls.length ∧
      ∀ rpc ∈ s.rpcs.drop s₀.rpcs.length, rpc.dst ∈ M → rpc.waiting = false)
    ⟨fun ⟨h₁, h₂⟩ => ⟨h₁, h₂⟩, fun ⟨h₁, h₂⟩ => ⟨h₁, h₂⟩⟩

end Cluster

/-! ## The nodes that are asked -/

/-- A node of `M` that `c` asks.  It has moved on at most by its vote for `c`,
and only if `c` has asked for votes. -/
structure Voter (T : Nat) (c : String) (asked : Prop) (n₀ n : RaftNode) : Prop where
  log : n.log = n₀.log
  follower : n.state = .follower
  term : n.currentTerm = T ∨ asked ∧ n.currentTerm = T + 1 ∧ n.voteFor = some c

/-- The reply of such a node. -/
def Reply.Supports (T : Nat) (asked : Prop) : Request → Reply → Prop
  | .preVote _ _, .preVote r => r.term ≤ T + 1 ∧ (r.voteGranted = true ∨ asked)
  | .requestVote _ _, .vote r => r.voteGranted = true
  | _, _ => False

section Voter

variable {T : Nat} {c : String} {asked : Prop} {n₀ n : RaftNode} {args : RequestVoteArgs}

theorem Voter.refl (hs : n.state = .follower) (hterm : n.currentTerm = T) :
    Voter T c asked n n :=
  ⟨rfl, hs, Or.inl hterm⟩

theorem Voter.mono {asked' : Prop} (h : Voter T c asked n₀ n) (hasked : asked → asked') :
    Voter T c asked' n₀ n :=
  ⟨h.log, h.follower, h.term.imp_right fun ⟨ha, hterm⟩ => ⟨hasked ha, hterm⟩⟩

theorem Reply.Supports.mono {asked' : Prop} {request : Request} {reply : Reply}
    (h : reply.Supports T asked request) (hasked : asked → asked') :
    reply.Supports T asked' request := by
  cases request <;> cases reply
  case preVote.preVote => exact ⟨h.1, h.2.imp_right hasked⟩
  all_goals exact h

theorem Voter.upToDate (h : Voter T c asked n₀ n) {index term : Nat}
    (hlog : n₀.logUpToDate index term = true) : n.logUpToDate index term = true := by
  rw [logUpToDate_iff] at hlog ⊢
  rw [h.log]
  exact hlog

/-- A probe is granted as long as the node has not voted. -/
theorem Voter.handlePreVote (h : Voter T c asked n₀ n) (hT : T + 1 ≠ 2 ^ 64)
    (hargs : args.term = T + 1)
    (hlog : n₀.logUpToDate args.lastLogIndex args.lastLogTerm = true) (clock : Clock) :
    Voter T c asked n₀ (handlePreVote clock args n).2 ∧
      (handlePreVote clock args n).1.term ≤ T + 1 ∧
      ((handlePreVote clock args n).1.voteGranted = true ∨ asked) := by
  have hup := h.upToDate hlog
  have hle : n.currentTerm ≤ T + 1 := by
    rcases h.term with hterm | ⟨-, hterm, -⟩ <;> omega
  have hvoter : Voter T c asked n₀ { n with lastHeartbeat := clock.now } :=
    ⟨h.log, h.follower, h.term⟩
  have hgrants : n.currentTerm = T → ¬(args.term < n.currentTerm ∨
      u64Succ n.currentTerm < args.term) := by
    intro hterm
    rw [hterm, u64Succ_of_ne hT, hargs]
    omega
  unfold RaftNode.handlePreVote
  dsimp only
  split_ifs with hrange hleader
  · refine ⟨hvoter, hle, ?_⟩
    rcases h.term with hterm | ⟨hasked, -⟩
    · exact absurd hrange (hgrants hterm)
    · exact Or.inr hasked
  · cases h.follower.symm.trans hleader.2
  · exact ⟨hvoter, hle, Or.inl hup⟩

theorem handleRequestVote_granted {n : RaftNode} (clock : Clock)
    (hle : n.currentTerm ≤ args.term)
    (hfree : n.currentTerm < args.term ∨ n.voteFor = some args.candidateId)
    (hlog : n.logUpToDate args.lastLogIndex args.lastLogTerm = true) :
    (handleRequestVote clock args n).1.voteGranted = true := by
  obtain ⟨storage, -, -, -, hadopt⟩ := adoptNewer_eq hle
  have hvote : ((adoptNewer args.term n).voteFor.isNone ||
      (adoptNewer args.term n).voteFor == some args.candidateId) = true := by
    rw [hadopt]
    dsimp only
    split_ifs with hlt
    · rfl
    · rw [hfree.resolve_left hlt]
      simp
  have hup : (adoptNewer args.term n).logUpToDate args.lastLogIndex args.lastLogTerm = true := by
    rw [hadopt]
    exact hlog
  unfold handleRequestVote
  rw [if_neg (Nat.not_lt.mpr hle)]
  dsimp only
  rw [if_pos (by rw [hvote, hup]; rfl)]

/-- The vote is granted. -/
theorem Voter.handleRequestVote (h : Voter T c asked n₀ n) (hasked : asked)
    (hargs : args.term = T + 1) (hcand : args.candidateId = c)
    (hlog : n₀.logUpToDate args.lastLogIndex args.lastLogTerm = true) (clock : Clock) :
    Voter T c asked n₀ (handleRequestVote clock args n).2 ∧
      (handleRequestVote clock args n).1.voteGranted = true := by
  have hle : n.currentTerm ≤ args.term := by
    rcases h.term with hterm | ⟨-, hterm, -⟩ <;> omega
  have hfree : n.currentTerm < args.term ∨ n.voteFor = some args.candidateId := by
    rcases h.term with hterm | ⟨-, -, hvote⟩
    · exact Or.inl (by omega)
    · exact Or.inr (hcand ▸ hvote)
  have hgranted := handleRequestVote_granted clock hle hfree (h.upToDate hlog)
  refine ⟨?_, hgranted⟩
  rcases handleRequestVote_cases clock args n with
    ⟨hlt, -⟩ | ⟨-, ⟨-, -, storage, -, -, -, heq⟩ | heq⟩
  · omega
  · rw [heq]
    refine ⟨h.log, ?_, Or.inr ⟨hasked, hargs, congrArg some hcand⟩⟩
    dsimp only
    split_ifs
    · rfl
    · exact h.follower
  · rw [heq] at hgranted
    cases hgranted

end Voter

/-! ## The round of `c` -/

/-- The requests of a kind whose task has got a reply. -/
def answered (P : Rpc → Bool) (rs : List Rpc) : Nat :=
  (rs.filter P).countP fun rpc => !rpc.waiting

theorem answered_set {P : Rpc → Bool} : ∀ {rs : List Rpc} {i : Nat} {rpc : Rpc},
    rs[i]? = some rpc → rpc.waiting = true → P { rpc with waiting := false } = P rpc →
      answered P (rs.set i { rpc with waiting := false }) =
        answered P rs + if P rpc = true then 1 else 0 := by
  intro rs
  induction rs with
  | nil =>
    intro i rpc h
    simp at h
  | cons r rs ih =>
    intro i rpc h hwait hP
    cases i with
    | zero =>
      obtain rfl : r = rpc := by simpa using h
      unfold answered
      rw [List.set_cons_zero, List.filter_cons, List.filter_cons, hP]
      split_ifs
      · simp [hwait]
      · rfl
    | succ i =>
      have hrest := ih (i := i) (by simpa using h) hwait hP
      unfold answered at hrest ⊢
      rw [List.set_cons_succ, List.filter_cons, List.filter_cons]
      split_ifs at hrest ⊢
      all_goals
        first
          | rw [List.countP_cons, List.countP_cons, hrest]
            omega
          | exact hrest

theorem Rpc.probes_of_request {rpc : Rpc} {k : Nat} {args : RequestVoteArgs}
    (h : rpc.request = .preVote k args) : rpc.probes k = true ∧ ∀ j, rpc.asks j = false := by
  unfold Rpc.probes Rpc.asks
  rw [h]
  exact ⟨beq_self_eq_true k, fun _ => rfl⟩

theorem Rpc.asks_of_request {rpc : Rpc} {k : Nat} {args : RequestVoteArgs}
    (h : rpc.request = .requestVote k args) : rpc.asks k = true := by
  unfold Rpc.asks
  rw [h]
  exact beq_self_eq_true k

/-- The same request to each of the peers. -/
def requests (c : String) (request : Request) (peers : List String) : List Rpc :=
  peers.map fun q => { src := c, dst := q, request := request, waiting := true }

/-- The requests of `c` and what has come of them.  `asked` says that a round of
votes is open. -/
structure Round (m : Membership) (M : List String) (c : String) (T : Nat) (s₀ s : Cluster)
    (cs : List Call) (rs : List Rpc) : Prop where
  calls : s.calls = s₀.calls ++ cs.map fun x => (c, x)
  rpcs : s.rpcs = s₀.rpcs ++ rs
  ours : ∀ rpc ∈ rs, rpc.src = c ∧ rpc.dst ∈ m.peers c
  request : ∀ rpc ∈ rs,
    rpc.request = .preVote s₀.probes.length (s₀.nodes c).preVoteRound.args ∨
      rpc.request = .requestVote s₀.polls.length (s₀.nodes c).preVoteRound.args ∧
        s₀.polls.length < s.polls.length
  heard : ∀ rpc ∈ rs, rpc.waiting = false → rpc.dst ∈ M
  replies : ∃ ps, s.replies = s₀.replies ++ ps ∧ ∀ x ∈ ps, ∃ i rpc,
    x.1 = s₀.rpcs.length + i ∧ rs[i]? = some rpc ∧ rpc.dst ∈ M ∧
      Reply.Supports T (s₀.polls.length < s.polls.length) rpc.request x.2
  voter : ∀ q ∈ M, q ≠ c →
    Voter T c (s₀.polls.length < s.polls.length) (s₀.nodes q) (s.nodes q)

/-- `c` is a candidate and asks for votes with what it has probed with. -/
structure Candidate (c : String) (T : Nat) (s₀ : Cluster) (n : RaftNode) : Prop where
  state : n.state = .candidate
  term : n.currentTerm = T + 1
  round : n.voteRound = (s₀.nodes c).preVoteRound

/-- How far `c` has got.  `cs` are its calls that wait and `rs` its requests. -/
inductive Phase (m : Membership) (M : List String) (c : String) (T : Nat) (s₀ : Cluster) :
    RaftNode → List Tally → List Tally → List Call → List Rpc → Prop where
  | start : Phase m M c T s₀ (s₀.nodes c) s₀.probes s₀.polls
      [.enterPreVote (s₀.nodes c).preVoteRound] []
  | alone {n : RaftNode} (hsize : m.members.length = 1) (hn : n.state = .preCandidate) :
      Phase m M c T s₀ n s₀.probes s₀.polls [.preVoteAlone] []
  | probing {v : Nat} {cs : List Call} {rs : List Rpc} (hsize : m.members.length ≠ 1)
      (hcs : ∀ x ∈ cs, x = .preVoteQuorum)
      (hdsts : (rs.filter (Rpc.probes s₀.probes.length)).map Rpc.dst = m.peers c)
      (hv : answered (Rpc.probes s₀.probes.length) rs = v)
      (hquorum : cs ≠ [] ↔ m.members.length / 2 < v) :
      Phase m M c T s₀ { s₀.nodes c with state := .preCandidate }
        (s₀.probes ++ [{ round := (s₀.nodes c).preVoteRound, votesReceived := v }]) s₀.polls cs rs
  | asking {n : RaftNode} {probes : List Tally} {cs : List Call} {rs : List Rpc}
      (hsize : m.members.length ≠ 1) (hM : m.members.length / 2 < M.length - 1)
      (hn : Candidate c T s₀ n) (hcs : ∀ x ∈ cs, x = .requestVotes ∨ x = .preVoteQuorum)
      (hone : cs.count .requestVotes = 1) : Phase m M c T s₀ n probes s₀.polls cs rs
  | polling {n : RaftNode} {probes : List Tally} {v : Nat} {cs : List Call} {rs : List Rpc}
      (hsize : m.members.length ≠ 1) (hM : m.members.length / 2 < M.length - 1)
      (hn : Candidate c T s₀ n) (hcs : ∀ x ∈ cs, x = .preVoteQuorum ∨ x = .voteQuorum (T + 1))
      (hdsts : (rs.filter (Rpc.asks s₀.polls.length)).map Rpc.dst = m.peers c)
      (hv : answered (Rpc.asks s₀.polls.length) rs = v)
      (hquorum : m.members.length / 2 < v + 1 → .voteQuorum (T + 1) ∈ cs) :
      Phase m M c T s₀ n probes
        (s₀.polls ++ [{ round := (s₀.nodes c).preVoteRound, votesReceived := v + 1 }]) cs rs
  | leader {n : RaftNode} {probes polls : List Tally} {cs : List Call} {rs : List Rpc}
      (hM : m.members.length = 1 ∨ m.members.length / 2 < M.length - 1) (hn : n.state = .leader)
      (hcs : ∀ x ∈ cs, x = .preVoteQuorum ∨ x = .voteQuorum (T + 1)) :
      Phase m M c T s₀ n probes polls cs rs

section Steps

variable {m : Membership} {M : List String} {c : String} {T : Nat} {s₀ s : Cluster}
  {cs : List Call} {rs : List Rpc}

theorem LiveMajority.args_term (h : LiveMajority m M c T s₀) (hT : T + 1 ≠ 2 ^ 64) :
    (s₀.nodes c).preVoteRound.args.term = T + 1 := by
  show u64Succ (s₀.nodes c).currentTerm = T + 1
  rw [h.term c h.mem, u64Succ_of_ne hT]

theorem LiveMajority.ne_of_mem_peers (h : LiveMajority m M c T s₀) {q : String}
    (hq : q ∈ m.peers c) : q ≠ c := by
  rintro rfl
  exact (List.nodup_cons.mp (m.nodup_peers (h.members q h.mem))).1 hq

theorem LiveMajority.totalNodes (h : LiveMajority m M c T s₀) :
    (s₀.nodes c).preVoteRound.totalNodes = m.members.length := by
  show (s₀.nodes c).peers.length + 1 = _
  rw [h.peers]
  exact m.length_peers (h.members c h.mem)

/-- A request is handled. -/
theorem Round.deliver (hM : LiveMajority m M c T s₀) (hT : T + 1 ≠ 2 ^ 64)
    (h : Round m M c T s₀ s cs rs) {i : Nat} {rpc : Rpc} (hrpc : rs[i]? = some rpc)
    (hdst : rpc.dst ∈ M) (clock : Clock) :
    Round m M c T s₀
      { s.setNode rpc.dst (rpc.request.handle clock (s.nodes rpc.dst)).2 with
        replies := s.replies ++
          [(s₀.rpcs.length + i, (rpc.request.handle clock (s.nodes rpc.dst)).1)] } cs rs := by
  have hmem := List.mem_of_getElem? hrpc
  have hne := hM.ne_of_mem_peers (h.ours rpc hmem).2
  have hargs := hM.args_term hT
  have hvoter := h.voter rpc.dst hdst hne
  have hlog := hM.upToDate rpc.dst hdst
  have hhandled : Voter T c (s₀.polls.length < s.polls.length) (s₀.nodes rpc.dst)
      (rpc.request.handle clock (s.nodes rpc.dst)).2 ∧
      Reply.Supports T (s₀.polls.length < s.polls.length) rpc.request
        (rpc.request.handle clock (s.nodes rpc.dst)).1 := by
    rcases h.request rpc hmem with hreq | ⟨hreq, hasked⟩
    · rw [hreq]
      exact hvoter.handlePreVote hT hargs hlog clock
    · rw [hreq]
      exact hvoter.handleRequestVote hasked hargs hM.nodeId hlog clock
  obtain ⟨ps, hps, hsupports⟩ := h.replies
  refine ⟨h.calls, h.rpcs, h.ours, h.request, h.heard,
    ⟨ps ++ [(s₀.rpcs.length + i, (rpc.request.handle clock (s.nodes rpc.dst)).1)], ?_,
      fun x hx => ?_⟩, fun q hq hqc => ?_⟩
  · show s.replies ++ [_] = _
    rw [hps, List.append_assoc]
  · rcases List.mem_append.mp hx with hx | hx
    · exact hsupports x hx
    · obtain rfl := List.mem_singleton.mp hx
      exact ⟨i, rpc, rfl, hrpc, hdst, hhandled.2⟩
  · show Voter T c _ (s₀.nodes q) (Function.update s.nodes rpc.dst _ q)
    by_cases hqd : q = rpc.dst
    · subst hqd
      rw [Function.update_self]
      exact hhandled.1
    · rw [Function.update_of_ne hqd]
      exact h.voter q hq hqc

/-- The task of a request stops to wait. -/
theorem Round.done (h : Round m M c T s₀ s cs rs) {i : Nat} {rpc : Rpc}
    (hrpc : rs[i]? = some rpc) (hdst : rpc.dst ∈ M) :
    Round m M c T s₀
      { s with rpcs := s.rpcs.set (s₀.rpcs.length + i) { rpc with waiting := false } } cs
      (rs.set i { rpc with waiting := false }) := by
  have hlater := later_set hrpc
  obtain ⟨ps, hps, hsupports⟩ := h.replies
  refine ⟨h.calls, ?_, fun rpc' hr' => ?_, fun rpc' hr' => ?_, fun rpc' hr' hwait => ?_,
    ⟨ps, hps, fun x hx => ?_⟩, h.voter⟩
  · show s.rpcs.set _ _ = _
    rw [h.rpcs, List.set_append_right _ _ (Nat.le_add_right _ _), Nat.add_sub_cancel_left]
  · obtain ⟨rpc₀, hr₀, hl⟩ := later_mem_right hlater rpc' hr'
    rw [hl.src, hl.dst]
    exact h.ours rpc₀ hr₀
  · obtain ⟨rpc₀, hr₀, hl⟩ := later_mem_right hlater rpc' hr'
    rw [hl.request]
    exact h.request rpc₀ hr₀
  · rcases List.mem_or_eq_of_mem_set hr' with hr' | rfl
    · exact h.heard rpc' hr' hwait
    · exact hdst
  · obtain ⟨i', rpc₀, hi', hr₀, hdst₀, hsup⟩ := hsupports x hx
    obtain ⟨rpc₁, hr₁, hl⟩ := later_get hlater hr₀
    exact ⟨i', rpc₁, hi', hr₁, by rw [hl.dst]; exact hdst₀, by rw [hl.request]; exact hsup⟩

/-- Calls of `c` wait. -/
theorem Round.addCalls (h : Round m M c T s₀ s cs rs) (calls : List Call) :
    Round m M c T s₀ (s.addCalls c calls) (cs ++ calls) rs := by
  refine ⟨?_, h.rpcs, h.ours, h.request, h.heard, h.replies, h.voter⟩
  show s.calls ++ _ = _
  rw [h.calls, List.append_assoc, List.map_append]

/-- A counter goes up. -/
theorem Round.setProbes (h : Round m M c T s₀ s cs rs) (probes : List Tally) :
    Round m M c T s₀ { s with probes := probes } cs rs :=
  ⟨h.calls, h.rpcs, h.ours, h.request, h.heard, h.replies, h.voter⟩

theorem Round.setPolls (h : Round m M c T s₀ s cs rs) (polls : List Tally)
    (hlen : s.polls.length ≤ polls.length) : Round m M c T s₀ { s with polls := polls } cs rs := by
  have hasked : s₀.polls.length < s.polls.length → s₀.polls.length < polls.length := by omega
  obtain ⟨ps, hps, hsupports⟩ := h.replies
  refine ⟨h.calls, h.rpcs, h.ours, fun rpc hr => ?_, h.heard, ⟨ps, hps, fun x hx => ?_⟩,
    fun q hq hqc => (h.voter q hq hqc).mono hasked⟩
  · exact (h.request rpc hr).imp_right fun ⟨hreq, hlt⟩ => ⟨hreq, hasked hlt⟩
  · obtain ⟨i, rpc, hi, hrpc, hdst, hreply⟩ := hsupports x hx
    exact ⟨i, rpc, hi, hrpc, hdst, hreply.mono hasked⟩

/-- `c` sends requests. -/
theorem Round.addRpcs (h : Round m M c T s₀ s cs rs) {request : Request}
    (hreq : request = .preVote s₀.probes.length (s₀.nodes c).preVoteRound.args ∨
      request = .requestVote s₀.polls.length (s₀.nodes c).preVoteRound.args ∧
        s₀.polls.length < s.polls.length) :
    Round m M c T s₀ { s with rpcs := s.rpcs ++ requests c request (m.peers c) } cs
      (rs ++ requests c request (m.peers c)) := by
  obtain ⟨ps, hps, hsupports⟩ := h.replies
  refine ⟨h.calls, ?_, fun rpc hr => ?_, fun rpc hr => ?_, fun rpc hr hwait => ?_,
    ⟨ps, hps, fun x hx => ?_⟩, h.voter⟩
  · show s.rpcs ++ _ = _
    rw [h.rpcs, List.append_assoc]
  · rcases List.mem_append.mp hr with hr | hr
    · exact h.ours rpc hr
    · obtain ⟨q, hq, rfl⟩ := List.mem_map.mp hr
      exact ⟨rfl, hq⟩
  · rcases List.mem_append.mp hr with hr | hr
    · exact h.request rpc hr
    · obtain ⟨q, hq, rfl⟩ := List.mem_map.mp hr
      exact hreq
  · rcases List.mem_append.mp hr with hr | hr
    · exact h.heard rpc hr hwait
    · obtain ⟨q, hq, rfl⟩ := List.mem_map.mp hr
      cases hwait
  · obtain ⟨i, rpc, hi, hrpc, hsup⟩ := hsupports x hx
    refine ⟨i, rpc, hi, ?_, hsup⟩
    rw [List.getElem?_append_left (List.getElem?_eq_some_iff.mp hrpc).1]
    exact hrpc

theorem Round.openProbe (hM : LiveMajority m M c T s₀) (h : Round m M c T s₀ s cs rs)
    (hprobes : s.probes = s₀.probes) :
    Round m M c T s₀ (s.openProbe c (s₀.nodes c).preVoteRound) cs
      (rs ++ requests c (.preVote s₀.probes.length (s₀.nodes c).preVoteRound.args)
        (m.peers c)) := by
  have hadd := (h.setProbes
    (s.probes ++ [{ round := (s₀.nodes c).preVoteRound, votesReceived := 0 }])).addRpcs (Or.inl rfl)
  rw [← hprobes, ← hM.peers] at hadd ⊢
  exact hadd

theorem Round.openPoll (hM : LiveMajority m M c T s₀) (h : Round m M c T s₀ s cs rs)
    (hpolls : s.polls = s₀.polls) :
    Round m M c T s₀ (s.openPoll c (s₀.nodes c).preVoteRound) cs
      (rs ++ requests c (.requestVote s₀.polls.length (s₀.nodes c).preVoteRound.args)
        (m.peers c)) := by
  have hgrow := h.setPolls
    (s.polls ++ [{ round := (s₀.nodes c).preVoteRound, votesReceived := 1 }]) (by simp)
  have hadd := hgrow.addRpcs (Or.inr ⟨rfl, by simp [hpolls]⟩)
  rw [← hpolls, ← hM.peers] at hadd ⊢
  exact hadd

/-- The node `c` changes. -/
theorem Round.setNode (h : Round m M c T s₀ s cs rs) (n : RaftNode) :
    Round m M c T s₀ (s.setNode c n) cs rs := by
  refine ⟨h.calls, h.rpcs, h.ours, h.request, h.heard, h.replies, fun q hq hqc => ?_⟩
  show Voter T c _ (s₀.nodes q) (Function.update s.nodes c n q)
  rw [Function.update_of_ne hqc]
  exact h.voter q hq hqc

/-- A call of `c` is taken out. -/
theorem Round.eraseCall (h : Round m M c T s₀ s cs rs) (k : Nat) :
    Round m M c T s₀ { s with calls := s.calls.eraseIdx (s₀.calls.length + k) } (cs.eraseIdx k)
      rs := by
  refine ⟨?_, h.rpcs, h.ours, h.request, h.heard, h.replies, h.voter⟩
  show s.calls.eraseIdx _ = _
  rw [h.calls, List.eraseIdx_append_of_length_le (Nat.le_add_right _ _),
    Nat.add_sub_cancel_left, List.eraseIdx_map]

/-! ## Counting -/

theorem LiveMajority.countP_peers (h : LiveMajority m M c T s₀) :
    (m.peers c).countP (· ∈ M) = M.length - 1 := by
  have hfilter : (m.members.filter (· ∈ M)).Perm M := by
    refine (List.perm_ext_iff_of_nodup (m.nodup.filter _) h.nodup).mpr fun q => ?_
    rw [List.mem_filter, decide_eq_true_iff]
    exact ⟨fun hq => hq.2, fun hq => ⟨h.members q hq, hq⟩⟩
  have hcons : (c :: m.peers c).countP (· ∈ M) = M.length := by
    rw [(m.perm c (h.members c h.mem)).countP_eq, List.countP_eq_length_filter]
    exact hfilter.length_eq
  rw [List.countP_cons_of_pos (by simpa using h.mem)] at hcons
  omega

/-- Only nodes of `M` answer. -/
theorem Round.answered_le (hM : LiveMajority m M c T s₀) (h : Round m M c T s₀ s cs rs)
    {P : Rpc → Bool} (hdsts : (rs.filter P).map Rpc.dst = m.peers c) :
    answered P rs ≤ M.length - 1 := by
  calc (rs.filter P).countP (fun rpc => !rpc.waiting)
      ≤ (rs.filter P).countP ((decide <| · ∈ M) ∘ Rpc.dst) := by
        refine List.countP_mono_left fun rpc hr hwait => ?_
        simpa using h.heard rpc (List.mem_of_mem_filter hr) (by simpa using hwait)
    _ = ((rs.filter P).map Rpc.dst).countP (· ∈ M) := List.countP_map.symm
    _ = M.length - 1 := by rw [hdsts, hM.countP_peers]

/-- In the end all of them have. -/
theorem Round.le_answered (hM : LiveMajority m M c T s₀) (h : Round m M c T s₀ s cs rs)
    (hdone : s₀.Delivered M s) {P : Rpc → Bool}
    (hdsts : (rs.filter P).map Rpc.dst = m.peers c) : M.length - 1 ≤ answered P rs := by
  calc M.length - 1
      = ((rs.filter P).map Rpc.dst).countP (· ∈ M) := by rw [hdsts, hM.countP_peers]
    _ = (rs.filter P).countP ((decide <| · ∈ M) ∘ Rpc.dst) := List.countP_map
    _ ≤ (rs.filter P).countP (fun rpc => !rpc.waiting) := by
        refine List.countP_mono_left fun rpc hr hdst => ?_
        have hwait := hdone.answered rpc
          (by rw [h.rpcs, List.drop_left]; exact List.mem_of_mem_filter hr)
          (by simpa using hdst)
        simpa using hwait

theorem Round.calls_eq_nil (h : Round m M c T s₀ s cs rs) (hdone : s₀.Delivered M s) :
    cs = [] := by
  have hlen := hdone.calls
  rw [h.calls, List.length_append, List.length_map] at hlen
  exact List.eq_nil_of_length_eq_zero (by omega)

end Steps

end OxideKv
