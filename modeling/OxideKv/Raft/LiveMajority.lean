import OxideKv.Raft.ElectionRound

/-!
# A live majority elects

`Electing` carries `Round` and `Phase` through every step, with a bound on the
calls and replies to come (`work`), so that all that is sent can be delivered
(`Electing.progress`).

On the way from the first probe to leader two counters have to pass one half of
the members: that of the probes starts at zero, that of the votes at one.  So
`c` becomes leader exactly when its peers in `M` are more than one half
themselves (`live_majority_elects`); a smaller majority stays without leader
(`majority_of_two_stays`).
-/

namespace OxideKv

open RaftNode Run

section Steps

variable {m : Membership} {M : List String} {c : String} {T : Nat} {s₀ s : Cluster}
  {cs : List Call} {rs : List Rpc}

/-! ## Replies -/

/-- Granted probes matter to a pre-candidate only. -/
theorem Phase.probeAnswered {n : RaftNode} {probes polls : List Tally}
    (h : Phase m M c T s₀ n probes polls cs rs) {i : Nat} {rpc : Rpc} {args : RequestVoteArgs}
    (hrpc : rs[i]? = some rpc) (hwait : rpc.waiting = true)
    (hreq : rpc.request = .preVote s₀.probes.length args) :
    (∃ v, probes = s₀.probes ++ [{ round := (s₀.nodes c).preVoteRound, votesReceived := v }] ∧
        polls = s₀.polls ∧
        Phase m M c T s₀ n
          (s₀.probes ++ [{ round := (s₀.nodes c).preVoteRound, votesReceived := v + 1 }]) polls
          (cs ++ if m.members.length / 2 < v + 1 then [.preVoteQuorum] else [])
          (rs.set i { rpc with waiting := false })) ∨
      ∀ (probes' : List Tally) (calls : List Call), (∀ x ∈ calls, x = .preVoteQuorum) →
        Phase m M c T s₀ n probes' polls (cs ++ calls)
          (rs.set i { rpc with waiting := false }) := by
  have hlater := later_set hrpc
  obtain ⟨hprobes, hasks⟩ := Rpc.probes_of_request hreq
  cases h with
  | start => simp at hrpc
  | alone => simp at hrpc
  | @probing v _ _ hsize hcs hdsts hv hquorum =>
    refine Or.inl ⟨v, rfl, rfl, .probing hsize (fun x hx => ?_) ?_ ?_ ?_⟩
    · rcases List.mem_append.mp hx with hx | hx
      · exact hcs x hx
      · split_ifs at hx
        · exact List.mem_singleton.mp hx
        · cases hx
    · exact (later_dsts (fun hr => hr.probes _) hlater).trans hdsts
    · rw [answered_set hrpc hwait rfl, if_pos hprobes, hv]
    · split_ifs with hmore
      · simp [hmore]
      · rw [List.append_nil, hquorum]
        omega
  | asking hsize hM hn hcs hone =>
    refine Or.inr fun probes' calls hcalls => .asking hsize hM hn (fun x hx => ?_) ?_
    · rcases List.mem_append.mp hx with hx | hx
      · exact hcs x hx
      · exact Or.inr (hcalls x hx)
    · rw [List.count_append, hone, List.count_eq_zero.mpr fun hx => by cases hcalls _ hx]
  | polling hsize hM hn hcs hdsts hv hquorum =>
    refine Or.inr fun probes' calls hcalls => .polling hsize hM hn (fun x hx => ?_) ?_ ?_ ?_
    · rcases List.mem_append.mp hx with hx | hx
      · exact hcs x hx
      · exact Or.inl (hcalls x hx)
    · exact (later_dsts (fun hr => hr.asks _) hlater).trans hdsts
    · rw [answered_set hrpc hwait rfl, hasks, hv]
      rfl
    · exact fun hmore => List.mem_append_left _ (hquorum hmore)
  | leader hM hn hcs =>
    refine Or.inr fun probes' calls hcalls => .leader hM hn fun x hx => ?_
    rcases List.mem_append.mp hx with hx | hx
    · exact hcs x hx
    · exact Or.inl (hcalls x hx)

/-- Votes matter to a candidate only. -/
theorem Phase.voteAnswered {n : RaftNode} {probes polls : List Tally}
    (h : Phase m M c T s₀ n probes polls cs rs) {i : Nat} {rpc : Rpc} {args : RequestVoteArgs}
    (hrpc : rs[i]? = some rpc) (hwait : rpc.waiting = true)
    (hreq : rpc.request = .requestVote s₀.polls.length args)
    (hasked : s₀.polls.length < polls.length) :
    (∃ v, polls = s₀.polls ++ [{ round := (s₀.nodes c).preVoteRound, votesReceived := v }] ∧
        Phase m M c T s₀ n probes
          (s₀.polls ++ [{ round := (s₀.nodes c).preVoteRound, votesReceived := v + 1 }])
          (cs ++ if m.members.length / 2 < v + 1 then [.voteQuorum (T + 1)] else [])
          (rs.set i { rpc with waiting := false })) ∨
      ∀ (polls' : List Tally) (calls : List Call), (∀ x ∈ calls, x = .voteQuorum (T + 1)) →
        Phase m M c T s₀ n probes polls' (cs ++ calls)
          (rs.set i { rpc with waiting := false }) := by
  have hlater := later_set hrpc
  have hasks := Rpc.asks_of_request hreq
  cases h with
  | start => simp at hrpc
  | alone => simp at hrpc
  | probing => exact absurd hasked (Nat.lt_irrefl _)
  | asking => exact absurd hasked (Nat.lt_irrefl _)
  | @polling _ _ v _ _ hsize hM hn hcs hdsts hv hquorum =>
    refine Or.inl ⟨v + 1, rfl, .polling hsize hM hn (fun x hx => ?_) ?_ ?_ fun hmore => ?_⟩
    · rcases List.mem_append.mp hx with hx | hx
      · exact hcs x hx
      · split_ifs at hx
        · exact Or.inr (List.mem_singleton.mp hx)
        · cases hx
    · exact (later_dsts (fun hr => hr.asks _) hlater).trans hdsts
    · rw [answered_set hrpc hwait rfl, if_pos hasks, hv]
    · rw [if_pos hmore]
      exact List.mem_append_right _ (List.mem_singleton.mpr rfl)
  | leader hM hn hcs =>
    refine Or.inr fun polls' calls hcalls => .leader hM hn fun x hx => ?_
    rcases List.mem_append.mp hx with hx | hx
    · exact hcs x hx
    · exact Or.inr (hcalls x hx)

/-- The last round of probes counts. -/
theorem countProbe_last {probes : List Tally} {tally : Tally} (h : s.probes = probes ++ [tally])
    (p : String) :
    s.countProbe probes.length p =
      Cluster.addCalls p
        (if tally.round.totalNodes / 2 < tally.votesReceived + 1 then [.preVoteQuorum] else [])
        { s with
          probes := probes ++ [{ tally with votesReceived := tally.votesReceived + 1 }] } := by
  have hlast : s.probes[probes.length]? = some tally := by
    rw [h, List.getElem?_concat_length]
  unfold Cluster.countProbe
  rw [hlast]
  dsimp only
  rw [h, List.set_append_right _ _ (Nat.le_refl _), Nat.sub_self, List.set_cons_zero]
  split_ifs
  · rfl
  · rw [Cluster.addCalls_nil]

/-- The last round of votes counts. -/
theorem countVote_last {polls : List Tally} {tally : Tally} (h : s.polls = polls ++ [tally])
    (p : String) (term : Nat) :
    s.countVote polls.length p term =
      Cluster.addCalls p
        (if tally.round.totalNodes / 2 < tally.votesReceived + 1 then [.voteQuorum term] else [])
        { s with
          polls := polls ++ [{ tally with votesReceived := tally.votesReceived + 1 }] } := by
  have hlast : s.polls[polls.length]? = some tally := by
    rw [h, List.getElem?_concat_length]
  unfold Cluster.countVote
  rw [hlast]
  dsimp only
  rw [h, List.set_append_right _ _ (Nat.le_refl _), Nat.sub_self, List.set_cons_zero]
  split_ifs
  · rfl
  · rw [Cluster.addCalls_nil]

/-- How many calls and replies a call can lead to, among `N` nodes. -/
def Call.work (N : Nat) : Call → Nat
  | .enterPreVote _ | .requestVotes => 2 * N + 1
  | _ => 1

/-- A bound on the calls and replies to come.  A node that is not yet a
candidate can go on to ask for votes. -/
def work (m : Membership) (n : RaftNode) (cs : List Call) (rs : List Rpc) : Nat :=
  (if n.state = .follower ∨ n.state = .preCandidate then 2 * m.members.length + 1 else 0) +
    (cs.map (Call.work m.members.length)).sum + 2 * rs.countP Rpc.waiting

theorem work_append (n : RaftNode) (cs calls : List Call) (rs : List Rpc) :
    work m n (cs ++ calls) rs =
      work m n cs rs + (calls.map (Call.work m.members.length)).sum := by
  unfold work
  rw [List.map_append, List.sum_append]
  omega

theorem perm_eraseIdx {k : Nat} {x : Call} (hk : cs[k]? = some x) :
    cs.Perm (x :: cs.eraseIdx k) := by
  obtain ⟨hlt, rfl⟩ := List.getElem?_eq_some_iff.mp hk
  exact (List.getElem_cons_eraseIdx_perm hlt).symm

theorem work_erase {k : Nat} {x : Call} (hk : cs[k]? = some x) (n : RaftNode) (rs : List Rpc) :
    work m n cs rs = work m n (cs.eraseIdx k) rs + x.work m.members.length := by
  have hsum := ((perm_eraseIdx hk).map (Call.work m.members.length)).sum_nat
  unfold work
  rw [List.map_cons, List.sum_cons] at hsum
  omega

theorem work_set {i : Nat} {rpc : Rpc} (hrpc : rs[i]? = some rpc) (hwait : rpc.waiting = true)
    (n : RaftNode) (cs : List Call) :
    work m n cs (rs.set i { rpc with waiting := false }) + 2 = work m n cs rs := by
  obtain ⟨hlt, rfl⟩ := List.getElem?_eq_some_iff.mp hrpc
  have hpos : 0 < rs.countP Rpc.waiting := List.countP_pos_iff.mpr ⟨_, List.getElem_mem hlt, hwait⟩
  unfold work
  rw [List.countP_set hlt, if_pos hwait, if_neg Bool.false_ne_true]
  omega

theorem work_requests (n : RaftNode) (request : Request) (peers : List String) :
    work m n cs (rs ++ requests c request peers) = work m n cs rs + 2 * peers.length := by
  have hall : (requests c request peers).countP Rpc.waiting = peers.length := by
    unfold requests
    rw [List.countP_map]
    exact List.countP_eq_length.mpr (by simp)
  unfold work
  rw [List.countP_append, hall]
  omega

/-- A reply costs a waiting task and leads to at most one call. -/
theorem work_reply {w i : Nat} {rpc : Rpc} {n : RaftNode} {calls : List Call}
    (hw : work m n cs rs ≤ w + 1) (hrpc : rs[i]? = some rpc) (hwait : rpc.waiting = true)
    (hcalls : (calls.map (Call.work m.members.length)).sum ≤ 1) :
    work m n (cs ++ calls) (rs.set i { rpc with waiting := false }) ≤ w := by
  have hset := work_set (m := m) hrpc hwait n cs
  rw [work_append]
  omega

/-- `c` is on its way and has at most `w` calls and replies to go. -/
def Electing (m : Membership) (M : List String) (c : String) (T : Nat) (s₀ : Cluster) (w : Nat)
    (s : Cluster) : Prop :=
  ∃ cs rs, Round m M c T s₀ s cs rs ∧ Phase m M c T s₀ (s.nodes c) s.probes s.polls cs rs ∧
    work m (s.nodes c) cs rs ≤ w

/-- `process_pre_vote_reply`. -/
theorem Electing.probeReply (hM : LiveMajority m M c T s₀) (hT : T + 1 ≠ 2 ^ 64)
    {w i : Nat} {rpc : Rpc}
    (hround : Round m M c T s₀ s cs (rs.set i { rpc with waiting := false }))
    (hphase : Phase m M c T s₀ (s.nodes c) s.probes s.polls cs rs)
    (hw : work m (s.nodes c) cs rs ≤ w + 1) (hrpc : rs[i]? = some rpc)
    (hwait : rpc.waiting = true) (hsrc : rpc.src = c)
    (hreq : rpc.request = .preVote s₀.probes.length (s₀.nodes c).preVoteRound.args)
    {reply : Reply} (hreply : reply.Supports T (s₀.polls.length < s.polls.length) rpc.request)
    (clock : Clock) :
    Electing m M c T s₀ w (s.process clock rpc reply) := by
  rw [hreq] at hreply
  cases reply with
  | vote | append => cases hreply
  | preVote r =>
    obtain ⟨hterm, hgranted⟩ := hreply
    unfold Cluster.process
    rw [hreq, hsrc]
    dsimp only
    rw [if_neg (by rw [hM.args_term hT]; omega)]
    rcases hphase.probeAnswered hrpc hwait hreq with ⟨v, hprobes, hpolls, hnext⟩ | hnext
    · have hgranted : r.voteGranted = true := by
        refine hgranted.resolve_right fun hasked => ?_
        rw [hpolls] at hasked
        exact Nat.lt_irrefl _ hasked
      rw [if_pos hgranted, countProbe_last hprobes]
      dsimp only
      rw [hM.totalNodes]
      refine ⟨_, _, (hround.setProbes _).addCalls _, hnext, work_reply hw hrpc hwait ?_⟩
      split_ifs <;> simp [Call.work]
    · split_ifs
      · obtain ⟨probes, calls, heq, hcalls⟩ := Cluster.countProbe_eq s₀.probes.length c s
        rw [heq]
        refine ⟨_, _, (hround.setProbes probes).addCalls calls, hnext probes calls ?_,
          work_reply hw hrpc hwait ?_⟩ <;> rcases hcalls with rfl | rfl <;> simp [Call.work]
      · rw [← Cluster.addCalls_nil c s]
        exact ⟨_, _, hround.addCalls [], hnext s.probes [] (by simp),
          work_reply hw hrpc hwait (by simp)⟩

/-- The end of the tasks of `request_votes`. -/
theorem Electing.voteReply (hM : LiveMajority m M c T s₀) (hT : T + 1 ≠ 2 ^ 64)
    {w i : Nat} {rpc : Rpc}
    (hround : Round m M c T s₀ s cs (rs.set i { rpc with waiting := false }))
    (hphase : Phase m M c T s₀ (s.nodes c) s.probes s.polls cs rs)
    (hw : work m (s.nodes c) cs rs ≤ w + 1) (hrpc : rs[i]? = some rpc)
    (hwait : rpc.waiting = true) (hsrc : rpc.src = c)
    (hreq : rpc.request = .requestVote s₀.polls.length (s₀.nodes c).preVoteRound.args)
    (hasked : s₀.polls.length < s.polls.length) {reply : Reply}
    (hreply : reply.Supports T (s₀.polls.length < s.polls.length) rpc.request) (clock : Clock) :
    Electing m M c T s₀ w (s.process clock rpc reply) := by
  rw [hreq] at hreply
  cases reply with
  | preVote | append => cases hreply
  | vote r =>
    unfold Cluster.process
    rw [hreq, hsrc]
    dsimp only
    rw [if_pos (by exact hreply), hM.args_term hT]
    rcases hphase.voteAnswered hrpc hwait hreq hasked with ⟨v, hpolls, hnext⟩ | hnext
    · rw [countVote_last hpolls]
      dsimp only
      rw [hM.totalNodes]
      refine ⟨_, _, (hround.setPolls _ (by simp [hpolls])).addCalls _, hnext,
        work_reply hw hrpc hwait ?_⟩
      split_ifs <;> simp [Call.work]
    · obtain ⟨polls, calls, heq, hlen, hcalls⟩ := Cluster.countVote_eq s₀.polls.length c (T + 1) s
      rw [heq]
      refine ⟨_, _, (hround.setPolls polls hlen.ge).addCalls calls, hnext polls calls ?_,
        work_reply hw hrpc hwait ?_⟩ <;> rcases hcalls with rfl | rfl <;> simp [Call.work]

theorem LiveMajority.length_ne_one (h : LiveMajority m M c T s₀) {q : String}
    (hq : q ∈ m.peers c) : m.members.length ≠ 1 := by
  have hpos := List.length_pos_of_mem hq
  have hlen := m.length_peers (h.members c h.mem)
  omega

theorem Electing.deliver (hM : LiveMajority m M c T s₀)
    (hT : m.members.length ≠ 1 → T + 1 ≠ 2 ^ 64) {w i : Nat} (h : Electing m M c T s₀ w s)
    {clock : Clock} {s' : Cluster} (hstep : s.step m (.deliver i clock) = some s')
    (hi : s₀.AmongMajority M s (.deliver i clock)) : Electing m M c T s₀ w s' := by
  obtain ⟨cs, rs, hround, hphase, hw⟩ := h
  obtain ⟨hle, hdst⟩ := hi
  obtain ⟨i, rfl⟩ := Nat.exists_eq_add_of_le hle
  simp only [Cluster.step, Option.map_eq_some_iff] at hstep
  obtain ⟨rpc, hrpc, rfl⟩ := hstep
  have hrs : rs[i]? = some rpc := by
    rw [hround.rpcs, List.getElem?_append_right (Nat.le_add_right _ _),
      Nat.add_sub_cancel_left] at hrpc
    exact hrpc
  have hours := hround.ours rpc (List.mem_of_getElem? hrs)
  have hne := hM.ne_of_mem_peers hours.2
  refine ⟨cs, rs, hround.deliver hM (hT (hM.length_ne_one hours.2)) hrs (hdst rpc hrpc) clock, ?_⟩
  show Phase m M c T s₀ (Function.update s.nodes rpc.dst _ c) s.probes s.polls cs rs ∧
    work m (Function.update s.nodes rpc.dst _ c) cs rs ≤ w
  rw [Function.update_of_ne hne.symm]
  exact ⟨hphase, hw⟩

theorem Electing.receive (hM : LiveMajority m M c T s₀)
    (hT : m.members.length ≠ 1 → T + 1 ≠ 2 ^ 64) {w j : Nat} (h : Electing m M c T s₀ (w + 1) s)
    {clock : Clock} {s' : Cluster} (hstep : s.step m (.receive j clock) = some s')
    (hj : s₀.AmongMajority M s (.receive j clock)) : Electing m M c T s₀ w s' := by
  obtain ⟨cs, rs, hround, hphase, hw⟩ := h
  obtain ⟨j, rfl⟩ := Nat.exists_eq_add_of_le (show s₀.replies.length ≤ j from hj)
  obtain ⟨ps, hps, hsupports⟩ := hround.replies
  simp only [Cluster.step, Option.bind_eq_some_iff] at hstep
  obtain ⟨x, hx, rpc, hrpc, hstep⟩ := hstep
  split_ifs at hstep with hwait
  obtain rfl := Option.some.inj hstep
  rw [hps, List.getElem?_append_right (Nat.le_add_right _ _), Nat.add_sub_cancel_left] at hx
  obtain ⟨i, rpc', hi, hrs, hdst, hreply⟩ := hsupports x (List.mem_of_getElem? hx)
  obtain rfl : rpc = rpc' := by
    rw [hi, hround.rpcs, List.getElem?_append_right (Nat.le_add_right _ _),
      Nat.add_sub_cancel_left, hrs] at hrpc
    exact (Option.some.inj hrpc).symm
  have hmem := List.mem_of_getElem? hrs
  obtain ⟨hsrc, hpeer⟩ := hround.ours rpc hmem
  have hT := hT (hM.length_ne_one hpeer)
  have hdone := hround.done hrs hdst
  rw [hi]
  rcases hround.request rpc hmem with hreq | ⟨hreq, hasked⟩
  · exact .probeReply hM hT hdone hphase hw hrs hwait hsrc hreq hreply clock
  · exact .voteReply hM hT hdone hphase hw hrs hwait hsrc hreq hasked hreply clock

/-! ## Calls -/

/-- The requests that have just been sent wait. -/
theorem answered_requests {P : Rpc → Bool} {request : Request} (peers : List String)
    (hold : ∀ rpc ∈ rs, P rpc = false)
    (hnew : ∀ {rpc : Rpc}, rpc.request = request → P rpc = true) :
    ((rs ++ requests c request peers).filter P).map Rpc.dst = peers ∧
      answered P (rs ++ requests c request peers) = 0 := by
  have hfilter : (rs ++ requests c request peers).filter P = requests c request peers := by
    rw [List.filter_append, List.filter_eq_nil_iff.mpr (by simpa using hold), List.nil_append,
      List.filter_eq_self]
    intro rpc hr
    obtain ⟨q, -, rfl⟩ := List.mem_map.mp hr
    exact hnew rfl
  unfold answered
  rw [hfilter]
  unfold requests
  constructor
  · rw [List.map_map]
    exact List.map_id' _
  · exact List.countP_eq_zero.mpr (by simp)

/-- `promote_to_candidate_locked` on the pre-candidate. -/
theorem Candidate.promote (hM : LiveMajority m M c T s₀) (hT : T + 1 ≠ 2 ^ 64) (clock : Clock) :
    Candidate c T s₀ (promoteToCandidate clock { s₀.nodes c with state := .preCandidate }) := by
  obtain ⟨storage, -, -, -, heq⟩ :=
    promoteToCandidate_eq clock { s₀.nodes c with state := .preCandidate }
  rw [heq]
  refine ⟨rfl, ?_, rfl⟩
  show u64Succ (s₀.nodes c).currentTerm = T + 1
  rw [hM.term c hM.mem, u64Succ_of_ne hT]

theorem preVoteAlone_leader {n : RaftNode} (clock : Clock) (hn : n.state = .preCandidate) :
    (n.preVoteAlone clock).state = .leader := by
  obtain ⟨storage, -, -, -, heq⟩ := promoteToCandidate_eq clock n
  unfold preVoteAlone becomeLeaderChecked becomeLeader
  rw [if_pos hn, heq]
  rfl

theorem Candidate.voteQuorum {n : RaftNode} (h : Candidate c T s₀ n) (clock : Clock) :
    (n.voteQuorum clock (T + 1)).state = .leader := by
  unfold RaftNode.voteQuorum becomeLeader
  rw [if_pos ⟨h.state, h.term⟩, if_neg (by rw [h.state]; exact NodeState.noConfusion)]

/-- `become_pre_candidate` after its read. -/
theorem Electing.enterPreVote (hM : LiveMajority m M c T s₀) (hround : Round m M c T s₀ s [] [])
    (hn : s.nodes c = s₀.nodes c) (hprobes : s.probes = s₀.probes) (hpolls : s.polls = s₀.polls)
    {w : Nat} (hw : work m (s.nodes c) [] [] + (2 * m.members.length + 1) ≤ w + 1) (clock : Clock) :
    Electing m M c T s₀ w
      (s.finish c ((Call.enterPreVote (s₀.nodes c).preVoteRound).resume clock (s.nodes c))) := by
  have henter : (s.nodes c).enterPreVote (s₀.nodes c).preVoteRound.args.term =
      (true, { s₀.nodes c with state := .preCandidate }) := by
    unfold RaftNode.enterPreVote
    rw [hn, if_pos ⟨hM.followers c hM.mem, rfl⟩]
  have hset := hround.setNode { s₀.nodes c with state := .preCandidate }
  have hlen := m.length_peers (hM.members c hM.mem)
  have hbound : 2 * m.members.length + 1 + (2 * m.members.length + 1) ≤ w + 1 := by
    unfold work at hw
    rw [hn, if_pos (Or.inl (hM.followers c hM.mem))] at hw
    exact hw
  unfold Call.resume
  dsimp only
  rw [henter]
  dsimp only
  rw [hM.totalNodes]
  split_ifs with hsize
  · rw [Cluster.finish_next]
    refine ⟨_, _, hset.addCalls [.preVoteAlone], ?_⟩
    show Phase m M c T s₀ ((s.setNode c _).nodes c) s.probes s.polls [.preVoteAlone] [] ∧
      work m ((s.setNode c _).nodes c) ([] ++ [.preVoteAlone]) [] ≤ w
    rw [hprobes, hpolls, Cluster.setNode_nodes_self]
    refine ⟨.alone hsize rfl, ?_⟩
    show 2 * m.members.length + 1 + 1 + 0 ≤ w
    omega
  · rw [Cluster.finish_probe]
    obtain ⟨hdsts, hanswered⟩ := answered_requests (c := c) (m.peers c)
      (by simp : ∀ rpc ∈ [], Rpc.probes s₀.probes.length rpc = false)
      fun (hreq : _ = Request.preVote _ (s₀.nodes c).preVoteRound.args) =>
        (Rpc.probes_of_request hreq).1
    refine ⟨[], _, hset.openProbe hM hprobes, ?_⟩
    show Phase m M c T s₀ ((s.setNode c _).nodes c) (s.probes ++ _) s.polls [] _ ∧
      work m ((s.setNode c _).nodes c) [] _ ≤ w
    rw [hprobes, hpolls, Cluster.setNode_nodes_self, work_requests]
    refine ⟨.probing hsize (by simp) hdsts hanswered (by simp), ?_⟩
    show 2 * m.members.length + 1 + 0 + 0 + 2 * (m.peers c).length ≤ w
    omega

/-- `become_pre_candidate` of a node without peers. -/
theorem Electing.preVoteAlone (hround : Round m M c T s₀ s [] []) (hsize : m.members.length = 1)
    (hn : (s.nodes c).state = .preCandidate) (w : Nat) (clock : Clock) :
    Electing m M c T s₀ w (s.finish c (Call.preVoteAlone.resume clock (s.nodes c))) := by
  have hlead := preVoteAlone_leader clock hn
  show Electing m M c T s₀ w (s.finish c { node := (s.nodes c).preVoteAlone clock })
  rw [Cluster.finish_node]
  refine ⟨_, _, hround.setNode _, ?_⟩
  rw [Cluster.setNode_nodes_self]
  refine ⟨.leader (Or.inl hsize) hlead (by simp), ?_⟩
  unfold work
  simp [hlead]

/-- `process_pre_vote_reply` with a majority. -/
theorem Electing.preVoteQuorum (hM : LiveMajority m M c T s₀) (hT : T + 1 ≠ 2 ^ 64)
    (hround : Round m M c T s₀ s cs rs) (hsize : m.members.length ≠ 1)
    (hbig : m.members.length / 2 < M.length - 1) (hcs : ∀ x ∈ cs, x = .preVoteQuorum)
    (hn : s.nodes c = { s₀.nodes c with state := .preCandidate }) (hpolls : s.polls = s₀.polls)
    {w : Nat} (hw : work m (s.nodes c) cs rs ≤ w) (clock : Clock) :
    Electing m M c T s₀ w (s.finish c (Call.preVoteQuorum.resume clock (s.nodes c))) := by
  have hquorum : (s.nodes c).preVoteQuorum clock =
      (true, promoteToCandidate clock (s.nodes c)) := by
    unfold RaftNode.preVoteQuorum
    rw [hn]
    rfl
  unfold Call.resume
  dsimp only
  rw [hquorum]
  dsimp only
  rw [Cluster.finish_next]
  refine ⟨_, _, (hround.setNode _).addCalls [.requestVotes], ?_⟩
  show Phase m M c T s₀ ((s.setNode c _).nodes c) s.probes s.polls _ rs ∧
    work m ((s.setNode c _).nodes c) (cs ++ [.requestVotes]) rs ≤ w
  rw [Cluster.setNode_nodes_self, hpolls, hn]
  have hcand := Candidate.promote hM hT clock
  refine ⟨.asking hsize hbig hcand (fun x hx => ?_) ?_, ?_⟩
  · rcases List.mem_append.mp hx with hx | hx
    · exact Or.inr (hcs x hx)
    · exact Or.inl (List.mem_singleton.mp hx)
  · rw [List.count_append, List.count_eq_zero.mpr fun hx => by cases hcs _ hx]
    rfl
  · rw [work_append]
    unfold work at hw ⊢
    rw [hn, if_pos (Or.inr rfl)] at hw
    rw [hcand.state, if_neg (by simp)]
    simp only [List.map_cons, List.map_nil, List.sum_cons, List.sum_nil, Call.work]
    omega

/-- `request_votes`. -/
theorem Electing.requestVotes (hM : LiveMajority m M c T s₀) (hround : Round m M c T s₀ s cs rs)
    (hsize : m.members.length ≠ 1) (hbig : m.members.length / 2 < M.length - 1)
    (hcs : ∀ x ∈ cs, x = .preVoteQuorum) (hn : Candidate c T s₀ (s.nodes c))
    (hpolls : s.polls = s₀.polls) {w : Nat}
    (hw : work m (s.nodes c) cs rs + (2 * m.members.length + 1) ≤ w + 1) (clock : Clock) :
    Electing m M c T s₀ w (s.finish c (Call.requestVotes.resume clock (s.nodes c))) := by
  have hold : ∀ rpc ∈ rs, rpc.asks s₀.polls.length = false := by
    intro rpc hr
    rcases hround.request rpc hr with hreq | ⟨-, hlt⟩
    · exact (Rpc.probes_of_request hreq).2 _
    · rw [hpolls] at hlt
      exact absurd hlt (Nat.lt_irrefl _)
  obtain ⟨hdsts, hanswered⟩ := answered_requests (c := c) (m.peers c) hold
    fun (hreq : _ = Request.requestVote _ (s₀.nodes c).preVoteRound.args) =>
      Rpc.asks_of_request hreq
  have hlen := m.length_peers (hM.members c hM.mem)
  have hmore : ¬ m.members.length / 2 < 1 := by omega
  unfold Call.resume
  dsimp only
  rw [hn.round, hM.totalNodes, if_neg hsize, Cluster.finish_poll, Cluster.addCalls_nil]
  refine ⟨_, _, hround.openPoll hM hpolls, ?_⟩
  show Phase m M c T s₀ (s.nodes c) s.probes (s.polls ++ _) cs _ ∧ work m (s.nodes c) cs _ ≤ w
  rw [hpolls, work_requests]
  refine ⟨.polling hsize hbig hn (fun x hx => Or.inl (hcs x hx)) hdsts hanswered fun h =>
    absurd h hmore, ?_⟩
  omega

/-- The votes are counted, and they are a majority. -/
theorem Electing.voteQuorum (hround : Round m M c T s₀ s cs rs)
    (hbig : m.members.length / 2 < M.length - 1)
    (hcs : ∀ x ∈ cs, x = .preVoteQuorum ∨ x = .voteQuorum (T + 1))
    (hn : Candidate c T s₀ (s.nodes c)) {w : Nat} (hw : work m (s.nodes c) cs rs ≤ w)
    (clock : Clock) :
    Electing m M c T s₀ w (s.finish c ((Call.voteQuorum (T + 1)).resume clock (s.nodes c))) := by
  have hlead := hn.voteQuorum clock
  show Electing m M c T s₀ w (s.finish c { node := (s.nodes c).voteQuorum clock (T + 1) })
  rw [Cluster.finish_node]
  refine ⟨_, _, hround.setNode _, ?_⟩
  rw [Cluster.setNode_nodes_self]
  refine ⟨.leader (Or.inr hbig) hlead hcs, ?_⟩
  unfold work at hw ⊢
  rw [hlead, if_neg (by simp)]
  omega

/-- A call that comes too late. -/
theorem resume_late {n : RaftNode} (clock : Clock) {x : Call} {term : Nat}
    (hx : x = .preVoteQuorum ∧ n.state ≠ .preCandidate ∨
      x = .voteQuorum term ∧ n.state ≠ .candidate) :
    x.resume clock n = { node := n } := by
  rcases hx with ⟨rfl, hn⟩ | ⟨rfl, hn⟩
  · unfold Call.resume RaftNode.preVoteQuorum
    rw [if_pos hn]
  · show { node := n.voteQuorum clock term : Outcome } = _
    unfold RaftNode.voteQuorum
    rw [if_neg fun h => hn h.1]

/-- A call of `c` goes on. -/
theorem Electing.resumed (hM : LiveMajority m M c T s₀)
    (hT : m.members.length ≠ 1 → T + 1 ≠ 2 ^ 64) {w k : Nat} {x : Call}
    (hround : Round m M c T s₀ s (cs.eraseIdx k) rs)
    (hphase : Phase m M c T s₀ (s.nodes c) s.probes s.polls cs rs)
    (hw : work m (s.nodes c) cs rs ≤ w + 1) (hx : cs[k]? = some x) (clock : Clock) :
    Electing m M c T s₀ w (s.finish c (x.resume clock (s.nodes c))) := by
  have hperm := perm_eraseIdx hx
  have hmem := List.mem_of_getElem? hx
  have hwork := work_erase (m := m) hx (s.nodes c) rs
  have hrest : ∀ y ∈ cs.eraseIdx k, y ∈ cs := fun y hy => List.mem_of_mem_eraseIdx hy
  have hlate : ∀ term, x = .preVoteQuorum ∧ (s.nodes c).state ≠ .preCandidate ∨
      x = .voteQuorum term ∧ (s.nodes c).state ≠ .candidate →
      Phase m M c T s₀ (s.nodes c) s.probes s.polls (cs.eraseIdx k) rs →
        Electing m M c T s₀ w (s.finish c (x.resume clock (s.nodes c))) := by
    intro term hx hphase
    have hone : x.work m.members.length = 1 := by
      rcases hx with ⟨rfl, -⟩ | ⟨rfl, -⟩ <;> rfl
    rw [resume_late clock hx, Cluster.finish_node, Cluster.setNode_self]
    exact ⟨_, _, hround, hphase, by omega⟩
  generalize hn : s.nodes c = n at hphase
  rw [← hn]
  generalize hprobes : s.probes = probes at hphase
  generalize hpolls : s.polls = polls at hphase
  cases hphase with
  | start =>
    obtain rfl := List.mem_singleton.mp hmem
    have hnil := List.perm_singleton.mp hperm.symm
    rw [List.tail_eq_of_cons_eq hnil] at hround hwork
    exact .enterPreVote hM hround hn hprobes hpolls (hwork ▸ hw) clock
  | alone hsize hstate =>
    obtain rfl := List.mem_singleton.mp hmem
    have hnil := List.perm_singleton.mp hperm.symm
    rw [List.tail_eq_of_cons_eq hnil] at hround
    rw [← hn] at hstate
    exact .preVoteAlone hround hsize hstate w clock
  | probing hsize hcs hdsts hv hquorum =>
    obtain rfl := hcs x hmem
    have hbig : m.members.length / 2 < M.length - 1 := by
      have hle := hround.answered_le hM hdsts
      have hlt := hquorum.mp (List.ne_nil_of_mem hmem)
      omega
    exact .preVoteQuorum hM (hT hsize) hround hsize hbig (fun y hy => hcs y (hrest y hy)) hn hpolls
      (by rw [hwork] at hw; exact Nat.le_of_succ_le_succ hw) clock
  | asking hsize hbig hcand hcs hone =>
    rw [hperm.count_eq] at hone
    rw [← hn] at hcand
    rcases hcs x hmem with rfl | rfl
    · refine .requestVotes hM hround hsize hbig (fun y hy => ?_) hcand hpolls (hwork ▸ hw)
        clock
      refine (hcs y (hrest y hy)).resolve_left ?_
      rintro rfl
      rw [List.count_cons_self] at hone
      exact List.count_pos_iff.mpr hy |>.ne' (Nat.succ.inj hone)
    · rw [List.count_cons_of_ne Call.noConfusion] at hone
      refine hlate 0 (Or.inl ⟨rfl, by rw [hcand.state]; exact NodeState.noConfusion⟩) ?_
      rw [hpolls]
      exact .asking hsize hbig hcand (fun y hy => hcs y (hrest y hy)) hone
  | polling hsize hbig hcand hcs hdsts hv hquorum =>
    rw [← hn] at hcand
    rcases hcs x hmem with rfl | rfl
    · refine hlate 0 (Or.inl ⟨rfl, by rw [hcand.state]; exact NodeState.noConfusion⟩) ?_
      rw [hpolls]
      refine .polling hsize hbig hcand (fun y hy => hcs y (hrest y hy)) hdsts hv fun hmore => ?_
      exact (List.mem_cons.mp (hperm.mem_iff.mp (hquorum hmore))).resolve_left Call.noConfusion
    · exact .voteQuorum hround hbig (fun y hy => hcs y (hrest y hy)) hcand
        (by rw [hwork] at hw; exact Nat.le_of_succ_le_succ hw) clock
  | leader hbig hlead hcs =>
    rw [← hn] at hlead
    refine hlate (T + 1) ((hcs x hmem).imp (fun hx => ⟨hx, ?_⟩) fun hx => ⟨hx, ?_⟩)
      (.leader hbig hlead fun y hy => hcs y (hrest y hy))
    all_goals
      rw [hlead]
      exact NodeState.noConfusion

theorem Electing.resume (hM : LiveMajority m M c T s₀)
    (hT : m.members.length ≠ 1 → T + 1 ≠ 2 ^ 64) {w k : Nat}
    (h : Electing m M c T s₀ (w + 1) s) {clock : Clock} {s' : Cluster}
    (hstep : s.step m (.resume k clock) = some s')
    (hk : s₀.AmongMajority M s (.resume k clock)) : Electing m M c T s₀ w s' := by
  obtain ⟨cs, rs, hround, hphase, hw⟩ := h
  obtain ⟨k, rfl⟩ := Nat.exists_eq_add_of_le (show s₀.calls.length ≤ k from hk)
  simp only [Cluster.step, Option.map_eq_some_iff] at hstep
  obtain ⟨call, hcall, rfl⟩ := hstep
  rw [hround.calls, List.getElem?_append_right (Nat.le_add_right _ _), Nat.add_sub_cancel_left,
    List.getElem?_map, Option.map_eq_some_iff] at hcall
  obtain ⟨x, hx, rfl⟩ := hcall
  exact Electing.resumed hM hT (hround.eraseCall k) hphase hw hx clock

theorem Electing.succ {w : Nat} (h : Electing m M c T s₀ w s) :
    Electing m M c T s₀ (w + 1) s := by
  obtain ⟨cs, rs, hround, hphase, hw⟩ := h
  exact ⟨cs, rs, hround, hphase, Nat.le_succ_of_le hw⟩

/-- One step. -/
theorem Electing.step (hM : LiveMajority m M c T s₀)
    (hT : m.members.length ≠ 1 → T + 1 ≠ 2 ^ 64) {w : Nat} (h : Electing m M c T s₀ w s)
    {e : Event} {s' : Cluster} (hstep : s.step m e = some s') (he : s₀.AmongMajority M s e) :
    Electing m M c T s₀ w s' := by
  cases e with
  | resume k clock => exact h.succ.resume hM hT hstep he
  | deliver i clock => exact h.deliver hM hT hstep he
  | receive j clock => exact h.succ.receive hM hT hstep he
  | _ => cases he

/-- The timer fires. -/
theorem electing_becomePreCandidate (hM : LiveMajority m M c T s₀) {s₁ : Cluster}
    (hstep : s₀.step m (.becomePreCandidate c) = some s₁) : ∃ w, Electing m M c T s₀ w s₁ := by
  simp only [Cluster.step] at hstep
  rw [if_pos (hM.members c hM.mem)] at hstep
  obtain rfl := Option.some.inj hstep
  refine ⟨_, [.enterPreVote (s₀.nodes c).preVoteRound], [], ?_, .start, Nat.le_refl _⟩
  exact ⟨rfl, (List.append_nil _).symm, by simp, by simp, by simp,
    ⟨[], (List.append_nil _).symm, by simp⟩,
    fun q hq _ => Voter.refl (hM.followers q hq) (hM.term q hq)⟩

/-- In the end `c` leads, or too few of its peers have been there to grant the
probe. -/
theorem Electing.delivered (hM : LiveMajority m M c T s₀) {w : Nat}
    (h : Electing m M c T s₀ w s) (hdone : s₀.Delivered M s) :
    (s.nodes c).state = .leader ↔
      m.members.length = 1 ∨ m.members.length / 2 < M.length - 1 := by
  obtain ⟨cs, rs, hround, hphase, -⟩ := h
  obtain rfl := hround.calls_eq_nil hdone
  generalize hn : s.nodes c = n at hphase
  generalize hprobes : s.probes = probes at hphase
  generalize hpolls : s.polls = polls at hphase
  cases hphase with
  | probing hsize hcs hdsts hv hquorum =>
    have hge := hround.le_answered hM hdone hdsts
    constructor
    · intro hlead
      cases hlead
    · rintro (hone | hbig)
      · exact absurd hone hsize
      · exact absurd rfl (hquorum.mpr (by omega))
  | asking hsize hbig hcand hcs hone => cases hone
  | polling hsize hbig hcand hcs hdsts hv hquorum =>
    have hge := hround.le_answered hM hdone hdsts
    cases hquorum (by omega)
  | leader hbig hlead hcs => exact ⟨fun _ => hbig, fun _ => hlead⟩

theorem Electing.takeCall (hM : LiveMajority m M c T s₀)
    (hT : m.members.length ≠ 1 → T + 1 ≠ 2 ^ 64) (clock : Clock) {w : Nat}
    (h : Electing m M c T s₀ w s) {x : Call} (hround : Round m M c T s₀ s (x :: cs) rs)
    (hw : work m (s.nodes c) (x :: cs) rs ≤ w) :
    ∃ w' < w, ∃ es s', run (Cluster.step m) s es = some s' ∧
      Along (Cluster.step m) (s₀.AmongMajority M) s es ∧ Electing m M c T s₀ w' s' := by
  have hpos : 0 < x.work m.members.length := by
    unfold Call.work
    split <;> omega
  obtain ⟨w, rfl⟩ : ∃ w', w = w' + 1 := by
    refine Nat.exists_eq_succ_of_ne_zero ?_
    unfold work at hw
    rw [List.map_cons, List.sum_cons] at hw
    omega
  have hcall : s.calls[s₀.calls.length]? = some (c, x) := by
    rw [hround.calls, List.getElem?_append_right (Nat.le_refl _), Nat.sub_self]
    rfl
  obtain ⟨s', hstep⟩ : ∃ s', s.step m (.resume s₀.calls.length clock) = some s' := by
    simp only [Cluster.step, hcall]
    exact ⟨_, rfl⟩
  have hk : s₀.AmongMajority M s (.resume s₀.calls.length clock) := Nat.le_refl _
  exact ⟨w, Nat.lt_succ_self w, [.resume s₀.calls.length clock], s',
    run_cons_eq_some.mpr ⟨s', hstep, rfl⟩, ⟨hk, fun _ _ => trivial⟩, h.resume hM hT hstep hk⟩

theorem Electing.answerRequest (hM : LiveMajority m M c T s₀)
    (hT : m.members.length ≠ 1 → T + 1 ≠ 2 ^ 64) (clock : Clock) {w : Nat}
    (h : Electing m M c T s₀ w s) (hround : Round m M c T s₀ s cs rs)
    (hw : work m (s.nodes c) cs rs ≤ w) {i : Nat} {rpc : Rpc} (hi : rs[i]? = some rpc)
    (hdst : rpc.dst ∈ M) (hwait : rpc.waiting = true) :
    ∃ w' < w, ∃ es s', run (Cluster.step m) s es = some s' ∧
      Along (Cluster.step m) (s₀.AmongMajority M) s es ∧ Electing m M c T s₀ w' s' := by
  obtain ⟨w, rfl⟩ : ∃ w', w = w' + 1 := by
    have hset := work_set (m := m) hi hwait (s.nodes c) cs
    exact Nat.exists_eq_succ_of_ne_zero (by omega)
  have hrpc : s.rpcs[s₀.rpcs.length + i]? = some rpc := by
    rw [hround.rpcs, List.getElem?_append_right (Nat.le_add_right _ _), Nat.add_sub_cancel_left]
    exact hi
  have hdeliver : s₀.AmongMajority M s (.deliver (s₀.rpcs.length + i) clock) := by
    refine ⟨Nat.le_add_right _ _, fun rpc' hr' => ?_⟩
    obtain rfl := Option.some.inj (hrpc.symm.trans hr')
    exact hdst
  obtain ⟨s₁, hstep₁, s₂, hstep₂⟩ :
      ∃ s₁, s.step m (.deliver (s₀.rpcs.length + i) clock) = some s₁ ∧
        ∃ s₂, s₁.step m (.receive s.replies.length clock) = some s₂ := by
    simp only [Cluster.step, hrpc]
    exact ⟨_, rfl, by simp [Cluster.setNode, hrpc, hwait]⟩
  have hreceive : s₀.AmongMajority M s₁ (.receive s.replies.length clock) := by
    obtain ⟨ps, hps, -⟩ := hround.replies
    show s₀.replies.length ≤ s.replies.length
    rw [hps, List.length_append]
    exact Nat.le_add_right _ _
  have hsent := h.deliver hM hT hstep₁ hdeliver
  refine ⟨w, Nat.lt_succ_self w,
    [.deliver (s₀.rpcs.length + i) clock, .receive s.replies.length clock], s₂,
    run_cons_eq_some.mpr ⟨s₁, hstep₁, run_cons_eq_some.mpr ⟨s₂, hstep₂, rfl⟩⟩,
    ⟨hdeliver, fun s' hs' => ?_⟩, hsent.receive hM hT hstep₂ hreceive⟩
  obtain rfl := Option.some.inj (hstep₁.symm.trans hs')
  exact ⟨hreceive, fun _ _ => trivial⟩

/-- As long as something is left to deliver, something can be. -/
theorem Electing.progress (hM : LiveMajority m M c T s₀)
    (hT : m.members.length ≠ 1 → T + 1 ≠ 2 ^ 64) (clock : Clock) {w : Nat}
    (h : Electing m M c T s₀ w s) (hdone : ¬ s₀.Delivered M s) :
    ∃ w' < w, ∃ es s', run (Cluster.step m) s es = some s' ∧
      Along (Cluster.step m) (s₀.AmongMajority M) s es ∧ Electing m M c T s₀ w' s' := by
  have ⟨cs, rs, hround, _, hw⟩ := h
  cases cs with
  | cons x cs => exact h.takeCall hM hT clock hround hw
  | nil =>
    obtain ⟨rpc, hmem, hdst, hwait⟩ : ∃ rpc ∈ rs, rpc.dst ∈ M ∧ rpc.waiting = true := by
      by_contra hnone
      refine hdone ⟨by rw [hround.calls]; simp, fun rpc hr hdst => ?_⟩
      rw [hround.rpcs, List.drop_left] at hr
      by_contra hwait
      exact hnone ⟨rpc, hr, hdst, by simpa using hwait⟩
    obtain ⟨i, hi⟩ := List.getElem?_of_mem hmem
    exact h.answerRequest hM hT clock hround hw hi hdst hwait

end Steps

namespace Cluster

/-- The timer of `c` fires, and only the nodes of `M` can be reached.  All that
is sent among them can be delivered, whatever the order so far, and then `c` is
leader if and only if its peers in `M` are more than one half of the members, or
it has none. -/
theorem live_majority_elects {m : Membership} {M : List String} {c : String} {T : Nat}
    {s₀ s₁ s : Cluster} {es : List Event} (hM : LiveMajority m M c T s₀)
    (hT : m.members.length ≠ 1 → T + 1 ≠ 2 ^ 64)
    (hfires : s₀.step m (.becomePreCandidate c) = some s₁)
    (halong : Along (step m) (s₀.AmongMajority M) s₁ es) (hrun : run (step m) s₁ es = some s) :
    (∃ fs t, run (step m) s fs = some t ∧ Along (step m) (s₀.AmongMajority M) s fs ∧
        s₀.Delivered M t) ∧
      (s₀.Delivered M s → ((s.nodes c).state = .leader ↔
        m.members.length = 1 ∨ m.members.length / 2 < M.length - 1)) := by
  obtain ⟨w, hstart⟩ := electing_becomePreCandidate hM hfires
  have h : Electing m M c T s₀ w s :=
    run_invariant (fun h he hstep => h.step hM hT hstep he) hstart halong hrun
  exact ⟨exists_run_of_variant (fun h => h.progress hM hT someClock) h,
    fun hdone => h.delivered hM hdone⟩

/-- A fixed election of `a` is found by taking its steps. -/
theorem exists_run_of_fires {s₀ : Cluster} {M : List String} {es : List Event}
    {Q : Cluster → Prop} [DecidablePred Q]
    (h : (run (step threeNodes) s₀ [.becomePreCandidate "a"]).any (fun s₁ => decide
      (Along (step threeNodes) (s₀.AmongMajority M) s₁ es ∧
        (run (step threeNodes) s₁ es).any (fun s => decide (Q s)) = true)) = true) :
    ∃ s₁ s, s₀.step threeNodes (.becomePreCandidate "a") = some s₁ ∧
      Along (step threeNodes) (s₀.AmongMajority M) s₁ es ∧
      run (step threeNodes) s₁ es = some s ∧ Q s := by
  obtain ⟨s₁, hfires, halong, hany⟩ := exists_run_of_any h
  obtain ⟨s, hrun, hQ⟩ := exists_run_of_any hany
  obtain ⟨t, hstep, ht⟩ := run_cons_eq_some.mp hfires
  obtain rfl : t = s₁ := Option.some.inj ht
  exact ⟨t, s, hstep, halong, hrun, hQ⟩

/-- The first probe is granted, then the second, and then both votes. -/
def electionOfA : List Event :=
  [.resume 0 someClock, .deliver 0 someClock, .deliver 1 someClock, .receive 0 someClock,
    .receive 1 someClock, .resume 0 someClock, .resume 0 someClock, .deliver 2 someClock,
    .receive 2 someClock, .resume 0 someClock, .deliver 3 someClock, .receive 3 someClock,
    .resume 0 someClock]

theorem live_majority_elects_start :
    ∃ s₁ s, (start threeNodes).step threeNodes (.becomePreCandidate "a") = some s₁ ∧
      run (step threeNodes) s₁ electionOfA = some s ∧
      (start threeNodes).Delivered ["a", "b", "c"] s ∧ (s.nodes "a").state = .leader := by
  have hM : LiveMajority threeNodes ["a", "b", "c"] "a" 0 (start threeNodes) :=
    ⟨by decide, by decide, by decide, rfl, rfl, by decide, by decide, by decide⟩
  obtain ⟨s₁, s, hfires, halong, hrun, hdone⟩ :
      ∃ s₁ s, (start threeNodes).step threeNodes (.becomePreCandidate "a") = some s₁ ∧
        Along (step threeNodes) ((start threeNodes).AmongMajority ["a", "b", "c"]) s₁
          electionOfA ∧
        run (step threeNodes) s₁ electionOfA = some s ∧
        (start threeNodes).Delivered ["a", "b", "c"] s :=
    exists_run_of_fires (by decide +kernel)
  have helects := (live_majority_elects hM (by decide) hfires halong hrun).2 hdone
  exact ⟨s₁, s, hfires, hrun, hdone, helects.mpr (by decide)⟩

/-- `b` grants the probe, and `c` is away. -/
def probeOfA : List Event := [.resume 0 someClock, .deliver 0 someClock, .receive 0 someClock]

/-- The nodes of a new cluster, in the last term there is. -/
def lastTerm : Cluster :=
  { start threeNodes with
    nodes := fun p => { freshNode p (threeNodes.peers p) with currentTerm := 2 ^ 64 - 1 } }

/-- Both peers refuse, since the probed term is zero. -/
def probesOfA : List Event :=
  [.resume 0 someClock, .deliver 0 someClock, .deliver 1 someClock, .receive 0 someClock,
    .receive 1 someClock]

/-- Two of three nodes do not elect, and three do not in the last term. -/
theorem majority_of_two_stays :
    (LiveMajority threeNodes ["a", "b"] "a" 0 (start threeNodes) ∧
      threeNodes.members.length / 2 < ["a", "b"].length ∧
      ∃ s₁ s, (start threeNodes).step threeNodes (.becomePreCandidate "a") = some s₁ ∧
        Along (step threeNodes) ((start threeNodes).AmongMajority ["a", "b"]) s₁ probeOfA ∧
        run (step threeNodes) s₁ probeOfA = some s ∧
        (start threeNodes).Delivered ["a", "b"] s ∧ (s.nodes "a").state = .preCandidate) ∧
      LiveMajority threeNodes ["a", "b", "c"] "a" (2 ^ 64 - 1) lastTerm ∧
      ∃ s₁ s, lastTerm.step threeNodes (.becomePreCandidate "a") = some s₁ ∧
        Along (step threeNodes) (lastTerm.AmongMajority ["a", "b", "c"]) s₁ probesOfA ∧
        run (step threeNodes) s₁ probesOfA = some s ∧
        lastTerm.Delivered ["a", "b", "c"] s ∧ (s.nodes "a").state = .follower := by
  refine ⟨⟨?_, by decide, exists_run_of_fires (by decide +kernel)⟩, ?_,
    exists_run_of_fires (by decide +kernel)⟩
  · exact ⟨by decide, by decide, by decide, rfl, rfl, by decide, by decide, by decide⟩
  · exact ⟨by decide, by decide, by decide, rfl, rfl, by decide, by decide, by decide⟩

end Cluster

end OxideKv
