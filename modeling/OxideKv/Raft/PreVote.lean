import OxideKv.Raft.ElectionTimer
import OxideKv.Raft.Probes

/-!
# Who a probe disturbs

`handle_pre_vote` refuses a probe by its term, by its own role in that term and
by where the logs end (`RefusesProbe`).  It does not ask whether a leader has been heard of,
so a node of a healthy cluster whose log is up to date gets its probes granted,
by the leader too, and goes on to raise the term: `up_to_date_probe_disrupts`.

`pre_vote_prevents_disruption` is what the rules do give.  As long as a majority
refuses the probes of `p` by them, `p` does not collect a quorum, whatever else
happens in the cluster.  If nobody else brings in a term above `T` either, no
term rises above `T`.
-/

namespace OxideKv

open RaftNode Run

namespace RaftNode

/-- The probe is out of date, by its term or by where its log ends: the term is
below that of the node, or more than one above it, or one that the node leads;
or the log ends in an older term, or earlier in the same one. -/
def RefusesProbe (n : RaftNode) (args : RequestVoteArgs) : Prop :=
  args.term < n.currentTerm ∨ u64Succ n.currentTerm < args.term ∨
    (args.term = n.currentTerm ∧ n.state = .leader) ∨
    args.lastLogTerm < n.getLastLogInfo.2 ∨
    (args.lastLogTerm = n.getLastLogInfo.2 ∧ args.lastLogIndex < n.getLastLogInfo.1)

instance (n : RaftNode) (args : RequestVoteArgs) : Decidable (n.RefusesProbe args) :=
  inferInstanceAs (Decidable (_ ∨ _))

theorem logUpToDate_eq_false_iff {n : RaftNode} {lastLogIndex lastLogTerm : Nat} :
    n.logUpToDate lastLogIndex lastLogTerm = false ↔
      lastLogTerm < n.getLastLogInfo.2 ∨
        (lastLogTerm = n.getLastLogInfo.2 ∧ lastLogIndex < n.getLastLogInfo.1) := by
  rw [Bool.eq_false_iff, Ne, logUpToDate, Bool.or_eq_true, Bool.and_eq_true, beq_iff_eq,
    decide_eq_true_eq, decide_eq_true_eq]
  omega

theorem handlePreVote_refused {n : RaftNode} {args : RequestVoteArgs} (clock : Clock)
    (h : n.RefusesProbe args) : (handlePreVote clock args n).1.voteGranted = false := by
  unfold handlePreVote
  dsimp only
  split_ifs with hterm hleader
  · rfl
  · rfl
  · rcases h with h | h | h | h
    · exact absurd (Or.inl h) hterm
    · exact absurd (Or.inr h) hterm
    · exact absurd h hleader
    · exact logUpToDate_eq_false_iff.mpr h

/-! ## The term of a node -/

/-- The term that a call can bring to the node. -/
def termOf (n : RaftNode) : NodeEvent → Option Nat
  | .requestVote _ args => some args.term
  | .appendEntries _ args => some args.term
  | .voteRefused _ reply => some reply.term
  | .appendReply _ _ _ reply => some reply.term
  | .becomeCandidate _ | .preVoteAlone _ | .preVoteQuorum _ => some (u64Succ n.currentTerm)
  | _ => none

theorem stepDown_term (term : Nat) (n : RaftNode) : (stepDown term n).currentTerm = term := by
  obtain ⟨storage, -, -, -, heq⟩ := stepDown_eq term n
  rw [heq]

theorem promoteToCandidate_term (clock : Clock) (n : RaftNode) :
    (promoteToCandidate clock n).currentTerm = u64Succ n.currentTerm := by
  obtain ⟨storage, -, -, -, heq⟩ := promoteToCandidate_eq clock n
  rw [heq]

theorem becomeLeader_term (clock : Clock) (n : RaftNode) :
    (becomeLeader clock n).currentTerm = n.currentTerm := by
  unfold becomeLeader
  split_ifs <;> rfl

theorem maybeCommit_term (clock : Clock) (n : RaftNode) :
    (maybeCommit clock n).currentTerm = n.currentTerm := by
  obtain ⟨c, -, h⟩ := maybeCommit_extends clock n
  exact h.currentTerm

theorem handleAppendEntries_term (clock : Clock) (args : AppendEntriesArgs) (n : RaftNode) :
    (handleAppendEntries clock args n).2.currentTerm = n.currentTerm ∨
      (handleAppendEntries clock args n).2.currentTerm = args.term := by
  rcases handleAppendEntries_follows clock args n with heq | h
  · rw [heq]
    exact Or.inl rfl
  · exact Or.inr h.currentTerm

/-- The term stays, or it is the one that the call brings. -/
theorem step_term {n n' : RaftNode} {e : NodeEvent} (he : e.IsPlain)
    (h : n.step e = some n') :
    n'.currentTerm = n.currentTerm ∨ some n'.currentTerm = n.termOf e := by
  cases e with
  | propose | proposeBatch | proposeAbortTx =>
    exact Or.inl (step_proposed h rfl).currentTerm
  | requestVote clock args =>
    obtain rfl := Option.some.inj h
    rcases handleRequestVote_cases clock args n with
      ⟨-, heq⟩ | ⟨hle, ⟨-, -, storage, -, -, -, heq⟩ | heq⟩
    · rw [heq]
      exact Or.inl rfl
    · rw [heq]
      exact Or.inr rfl
    · obtain ⟨storage, -, -, -, hadopt⟩ := adoptNewer_eq hle
      rw [heq, hadopt]
      exact Or.inr rfl
  | preVote clock args =>
    obtain rfl := Option.some.inj h
    unfold handlePreVote
    dsimp only
    split_ifs <;> exact Or.inl rfl
  | appendEntries clock args =>
    obtain rfl := Option.some.inj h
    exact (handleAppendEntries_term clock args n).imp_right (congrArg some)
  | becomeCandidate clock =>
    obtain rfl := Option.some.inj h
    exact Or.inr (congrArg some (promoteToCandidate_term clock n))
  | enterPreVote probedTerm =>
    obtain rfl := Option.some.inj h
    unfold enterPreVote
    split_ifs <;> exact Or.inl rfl
  | preVoteAlone clock =>
    obtain rfl := Option.some.inj h
    unfold preVoteAlone becomeLeaderChecked
    split_ifs
    · exact Or.inr (congrArg some (promoteToCandidate_term clock n))
    · rw [becomeLeader_term]
      exact Or.inr (congrArg some (promoteToCandidate_term clock n))
    · exact Or.inl rfl
  | preVoteStale =>
    obtain rfl := Option.some.inj h
    unfold preVoteStale
    split_ifs <;> exact Or.inl rfl
  | preVoteQuorum clock =>
    obtain rfl := Option.some.inj h
    unfold preVoteQuorum
    split_ifs
    · exact Or.inl rfl
    · exact Or.inr (congrArg some (promoteToCandidate_term clock n))
  | voteQuorum clock term =>
    obtain rfl := Option.some.inj h
    unfold voteQuorum
    split_ifs
    · exact Or.inl (becomeLeader_term clock n)
    · exact Or.inl rfl
  | voteRefused term reply =>
    obtain rfl := Option.some.inj h
    unfold voteRefused
    split_ifs
    · exact Or.inr (congrArg some (stepDown_term reply.term n))
    · exact Or.inl rfl
  | syncAlone clock =>
    obtain rfl := Option.some.inj h
    unfold syncAlone
    split_ifs
    · exact Or.inl (maybeCommit_term clock n)
    · exact Or.inl rfl
  | appendReply clock peer args reply =>
    obtain rfl := Option.some.inj h
    unfold appendReply
    dsimp only
    split_ifs
    · exact Or.inl (maybeCommit_term clock _)
    · exact Or.inr (congrArg some (stepDown_term reply.term n))
    · exact Or.inl rfl
    · exact Or.inl rfl
  | proposeAddNode | proposeRemoveNode | txVoteRequest | installSnapshot | coordinatorStepDown
  | maybeSnapshot => exact absurd he id

end RaftNode

/-! ## What the cluster lets through -/

def Reply.grantsProbe : Reply → Bool
  | .preVote r => r.voteGranted
  | _ => false

/-- The call promotes a node that has probed. -/
def NodeEvent.EndsProbe : NodeEvent → Prop
  | .preVoteAlone _ | .preVoteQuorum _ => True
  | _ => False

instance (e : NodeEvent) : Decidable e.EndsProbe :=
  decidable_of_iff
    ((match e with
      | .preVoteAlone _ | .preVoteQuorum _ => true
      | _ => false) = true) (by cases e <;> simp [NodeEvent.EndsProbe])

namespace Cluster

/-- No node of `M` has granted a probe of `p`. -/
def NoGrants (p : String) (M : List String) (s : Cluster) : Prop :=
  ∀ x ∈ s.replies, ∀ rpc ∈ s.rpcs[x.1]?, rpc.src = p → rpc.dst ∈ M → x.2.grantsProbe = false

instance (p : String) (M : List String) (s : Cluster) : Decidable (s.NoGrants p M) :=
  inferInstanceAs (Decidable (∀ x ∈ s.replies, _))

/-- A probe of `p` that reaches a node of `M` is refused. -/
def RefusedBy (p : String) (M : List String) (s : Cluster) : Event → Prop
  | .deliver i _ =>
      match s.rpcs[i]? with
      | some { src, dst, request := .preVote _ args, .. } =>
          src = p → dst ∈ M → (s.nodes dst).RefusesProbe args
      | _ => True
  | _ => True

instance (p : String) (M : List String) (s : Cluster) (e : Event) :
    Decidable (s.RefusedBy p M e) :=
  decidable_of_iff
    ((match e with
      | .deliver i _ =>
          match s.rpcs[i]? with
          | some { src, dst, request := .preVote _ args, .. } =>
              decide (src = p → dst ∈ M → (s.nodes dst).RefusesProbe args)
          | _ => true
      | _ => true) = true) <| by
    unfold RefusedBy
    split
    · split
      · rw [decide_eq_true_eq]
      · simp
    · simp

/-- No crash, and nothing brings a term above `T` to a node but the promotion
of `p` after its probes. -/
def Calm (p : String) (T : Nat) (s : Cluster) (e : Event) : Prop :=
  ¬e.IsCrash ∧ ∀ c ∈ s.nodeEvent e, ∀ T' ∈ (s.nodes c.1).termOf c.2,
    T' ≤ T ∨ c.1 = p ∧ c.2.EndsProbe

instance (p : String) (T : Nat) (s : Cluster) (e : Event) : Decidable (s.Calm p T e) :=
  inferInstanceAs (Decidable (_ ∧ _))

/-- Every reply is one to a request. -/
def Answers (s : Cluster) : Prop := ∀ x ∈ s.replies, ∃ rpc, s.rpcs[x.1]? = some rpc

theorem step_answers {m : Membership} {s s' : Cluster} {e : Event} (h : s.Answers)
    (hstep : s.step m e = some s') : s'.Answers := by
  have hkeeps : ∀ {i : Nat} {rpc : Rpc}, s.rpcs[i]? = some rpc → ∃ rpc', s'.rpcs[i]? = some rpc' :=
    fun hi => ((step_keeps hstep).rpc hi).imp fun _ hrpc => hrpc.1
  intro x hx
  rcases step_replies hstep with hsame | ⟨i, clock, rpc, -, hrpc, -, hreplies⟩
  · obtain ⟨rpc, hrpc⟩ := h x (hsame ▸ hx)
    exact hkeeps hrpc
  · rw [hreplies] at hx
    rcases List.mem_append.mp hx with hx | hx
    · obtain ⟨rpc, hrpc⟩ := h x hx
      exact hkeeps hrpc
    · obtain rfl := List.mem_singleton.mp hx
      exact hkeeps hrpc

theorem step_noGrants {m : Membership} {s s' : Cluster} {e : Event} {p : String}
    {M : List String} (hanswers : s.Answers) (h : s.NoGrants p M) (hrefused : s.RefusedBy p M e)
    (hstep : s.step m e = some s') : s'.NoGrants p M := by
  have hold : ∀ x ∈ s.replies, ∀ rpc ∈ s'.rpcs[x.1]?, rpc.src = p → rpc.dst ∈ M →
      x.2.grantsProbe = false := by
    intro x hx rpc' hrpc' hsrc hdst
    obtain ⟨rpc, hrpc⟩ := hanswers x hx
    obtain ⟨rpc'', hrpc'', hsrc', hdst', -⟩ := (step_keeps hstep).rpc hrpc
    obtain rfl : rpc'' = rpc' := Option.some.inj (hrpc''.symm.trans hrpc')
    exact h x hx rpc hrpc (hsrc' ▸ hsrc) (hdst' ▸ hdst)
  intro x hx
  rcases step_replies hstep with hsame | ⟨i, clock, rpc, rfl, hrpc, hrpcs, hreplies⟩
  · exact hold x (hsame ▸ hx)
  · rw [hreplies] at hx
    rcases List.mem_append.mp hx with hx | hx
    · exact hold x hx
    · obtain rfl := List.mem_singleton.mp hx
      intro rpc' hrpc' hsrc hdst
      obtain rfl : rpc = rpc' := Option.some.inj ((hrpcs ▸ hrpc).symm.trans hrpc')
      obtain ⟨src, dst, request, waiting⟩ := rpc
      cases request with
      | preVote k args =>
        simp only [RefusedBy, hrpc] at hrefused
        exact handlePreVote_refused clock (hrefused hsrc hdst)
      | _ => rfl

/-- A node that a majority refuses collects no quorum. -/
theorem votesReceived_le {m : Membership} {s : Cluster} (h : ProbeRel m s) {p : String}
    {M : List String} (hgrants : s.NoGrants p M) (hnodup : M.Nodup)
    (hmembers : ∀ q ∈ M, q ∈ m.members) (hmaj : m.members.length / 2 < M.length) {k : Nat}
    {tally : Tally} (hk : s.probes[k]? = some tally) (hcand : tally.round.args.candidateId = p) :
    tally.votesReceived ≤ tally.round.totalNodes / 2 := by
  have hprobe := h.probe hk
  obtain ⟨voters, hvotersNodup, hcount, hvoters⟩ := hprobe.voters
  have hvoter : ∀ q ∈ voters, q ∈ m.members ∧ q ∉ M := by
    intro q hq
    obtain ⟨i, rpc, r, hrpc, hprobes, hdst, -, hreply, hgranted⟩ := hvoters q hq
    have hmem := List.mem_of_getElem? hrpc
    have hsrc : rpc.src = p := by
      have hreq := h.request rpc hmem
      unfold Rpc.probes at hprobes
      split at hprobes
      · rename_i k' args hr
        obtain rfl : k' = k := by simpa using hprobes
        rw [hr] at hreq
        obtain ⟨tally', hk', hargs, hsrc⟩ := hreq
        obtain rfl : tally = tally' := Option.some.inj (hk.symm.trans hk')
        rw [← hsrc, ← hargs, hcand]
      · cases hprobes
    have hpeer : q ∈ m.peers tally.round.args.candidateId := by
      rw [← hprobe.peers, ← hprobe.dsts, ← hdst]
      exact List.mem_map_of_mem (List.mem_filter.mpr ⟨hmem, hprobes⟩)
    refine ⟨Membership.mem_of_mem_peers hprobe.member hpeer, fun hqM => ?_⟩
    have hnone := hgrants _ hreply rpc hrpc hsrc (hdst ▸ hqM)
    rw [show (Reply.preVote r).grantsProbe = r.voteGranted from rfl, hgranted] at hnone
    cases hnone
  have hboth : (M ++ voters).Nodup :=
    List.nodup_append.mpr ⟨hnodup, hvotersNodup, fun a ha b hb hab =>
      (hvoter b hb).2 (hab ▸ ha)⟩
  have hlen : (M ++ voters).length ≤ m.members.length := by
    refine (hboth.subperm fun q hq => ?_).length_le
    rcases List.mem_append.mp hq with hq | hq
    · exact hmembers q hq
    · exact (hvoter q hq).1
  have htotal : tally.round.totalNodes = m.members.length := by
    unfold VoteRound.totalNodes
    rw [hprobe.peers]
    exact m.length_peers hprobe.member
  rw [List.length_append] at hlen
  omega

/-! ## Terms -/

theorem nodeEvent_isPlain {m : Membership} {s s' : Cluster} {e : Event} (h : ProbeRel m s)
    (hstep : s.step m e = some s') {p : String} {ne : NodeEvent}
    (hevent : s.nodeEvent e = some (p, ne)) : ne.IsPlain := by
  cases nodeCall_of_nodeEvent hevent with
  | candidate hne => exact hne ▸ trivial
  | propose hne =>
    simp only [step] at hstep
    split_ifs at hstep with hguard
    exact hne ▸ hguard.2
  | proposeBatch hne =>
    simp only [step] at hstep
    split_ifs at hstep with hguard
    exact hne ▸ List.all_eq_true.mp hguard.2
  | proposeAbortTx hne => exact hne ▸ trivial
  | resume hk hne => exact Call.nodeEvent_isPlain hne
  | @deliver i clock rpc hrpc hdst hne =>
    have hreq := h.request rpc (List.mem_of_getElem? hrpc)
    rw [hne]
    cases hr : rpc.request with
    | appendEntries args =>
      rw [hr] at hreq
      exact hreq
    | _ => trivial
  | receive hj hrpc hsrc hne =>
    rcases processEvent_cases hne with ⟨_, _, rfl⟩ | rfl | ⟨_, _, rfl, -⟩ <;> trivial

/-- A node is promoted by one of its calls. -/
theorem nodeEvent_endsProbe {s : Cluster} {e : Event} {p : String} {ne : NodeEvent}
    (h : s.nodeEvent e = some (p, ne)) (hends : ne.EndsProbe) :
    (p, Call.preVoteAlone) ∈ s.calls ∨ (p, Call.preVoteQuorum) ∈ s.calls := by
  cases nodeCall_of_nodeEvent h with
  | @resume k clock c hk hne =>
    have hmem := List.mem_of_getElem? hk
    cases c with
    | preVoteAlone => exact Or.inl hmem
    | preVoteQuorum => exact Or.inr hmem
    | _ => cases hne <;> cases hends
  | @deliver i clock rpc hrpc hdst hne =>
    rw [hne] at hends
    cases hr : rpc.request <;> rw [hr] at hends <;> cases hends
  | receive hj hrpc hsrc hne =>
    rcases processEvent_cases hne with ⟨_, _, rfl⟩ | rfl | ⟨_, _, rfl, -⟩ <;> cases hends
  | candidate hne | propose hne | proposeBatch hne | proposeAbortTx hne =>
    rw [hne] at hends
    cases hends

/-- What `p` can do while a majority with another member refuses its probes. -/
structure Refused (m : Membership) (p : String) (M : List String) (s : Cluster) : Prop where
  rel : ProbeRel m s
  answers : s.Answers
  grants : s.NoGrants p M

theorem step_refused {m : Membership} {p : String} {M : List String} {s s' : Cluster} {e : Event}
    (h : Refused m p M s) (hrefused : s.RefusedBy p M e) (hstep : s.step m e = some s') :
    Refused m p M s' :=
  ⟨step_probeRel h.rel hstep, step_answers h.answers hstep,
    step_noGrants h.answers h.grants hrefused hstep⟩

section Disruption

variable {m : Membership} {p l : String} {M : List String}

theorem Refused.not_preVoteQuorum {s : Cluster} (h : Refused m p M s) (hnodup : M.Nodup)
    (hmembers : ∀ q ∈ M, q ∈ m.members) (hmaj : m.members.length / 2 < M.length) :
    (p, Call.preVoteQuorum) ∉ s.calls := by
  intro hcall
  obtain ⟨k, tally, hk, hcand, hquorum⟩ := h.rel.call _ hcall
  have hle := votesReceived_le h.rel h.grants hnodup hmembers hmaj hk hcand
  omega

theorem Refused.not_preVoteAlone {s : Cluster} (h : Refused m p M s) (hl : l ∈ m.members)
    (hp : p ≠ l) : (p, Call.preVoteAlone) ∉ s.calls := by
  intro hcall
  have hpm := h.rel.member _ hcall
  have halone : m.peers p = [] := h.rel.call _ hcall
  have hmem := (m.perm p hpm).symm.subset hl
  rw [halone, List.mem_singleton] at hmem
  exact hp hmem.symm

/-- A calm step takes no node above `T`. -/
theorem step_term_le {s s' : Cluster} {e : Event} {T : Nat} (h : Refused m p M s)
    (hnodup : M.Nodup) (hmembers : ∀ q ∈ M, q ∈ m.members)
    (hmaj : m.members.length / 2 < M.length) (hl : l ∈ M) (hp : p ≠ l) (hcalm : s.Calm p T e)
    (hstep : s.step m e = some s') (q : String) :
    (s'.nodes q).currentTerm ≤ max T (s.nodes q).currentTerm := by
  rcases step_node hstep q with hsame | ⟨ne, hne, hnode⟩ | ⟨clock, rfl, -⟩
  · rw [hsame]
    exact le_max_right _ _
  · rcases step_term (nodeEvent_isPlain h.rel hstep hne) hnode with hsame | hbrings
    · rw [hsame]
      exact le_max_right _ _
    · rcases hcalm.2 _ hne _ hbrings.symm with hle | ⟨hq, hends⟩
      · exact hle.trans (le_max_left _ _)
      · obtain rfl : q = p := hq
        rcases nodeEvent_endsProbe hne hends with hcall | hcall
        · exact absurd hcall (h.not_preVoteAlone (hmembers l hl) hp)
        · exact absurd hcall (h.not_preVoteQuorum hnodup hmembers hmaj)
  · exact absurd trivial hcalm.1

/-- A majority that refuses the probes of `p` keeps it from a quorum.  Unless
somebody else brings in a term above `T`, no term rises above `T`. -/
theorem pre_vote_prevents_disruption {es fs : List Event} {s t : Cluster} {T : Nat}
    (hrun : run (step m) (start m) es = some s) (hnodup : M.Nodup)
    (hmembers : ∀ q ∈ M, q ∈ m.members) (hmaj : m.members.length / 2 < M.length) (hl : l ∈ M)
    (hp : p ≠ l) (hgrants : s.NoGrants p M)
    (hsteps : Along (step m) (fun u e => u.Calm p T e ∧ u.RefusedBy p M e) s fs)
    (hrun' : run (step m) s fs = some t) :
    (∀ tally ∈ t.probes, tally.round.args.candidateId = p →
      tally.votesReceived ≤ tally.round.totalNodes / 2) ∧
    (p, Call.preVoteQuorum) ∉ t.calls ∧
    ∀ q, (t.nodes q).currentTerm ≤ max T (s.nodes q).currentTerm := by
  have hanswers : s.Answers := run_invariant (P := fun _ _ => True)
    (fun h _ hstep => step_answers h hstep) (by simp [Answers, start])
    (along_of_forall (by simp) es _) hrun
  have hs : Refused m p M s := ⟨run_probeRel hrun, hanswers, hgrants⟩
  have ht : Refused m p M t := run_invariant (fun h hP hstep => step_refused h hP.2 hstep) hs
    hsteps hrun'
  refine ⟨fun tally htally hcand => ?_, ht.not_preVoteQuorum hnodup hmembers hmaj, ?_⟩
  · obtain ⟨k, hk⟩ := List.getElem?_of_mem htally
    exact votesReceived_le ht.rel ht.grants hnodup hmembers hmaj hk hcand
  · refine run_rel (I := Refused m p M)
      (R := fun u v => ∀ q, (v.nodes q).currentTerm ≤ max T (u.nodes q).currentTerm)
      (fun u q => le_max_right _ _) (fun huv hvw q => ?_) (fun h hP hstep => ?_) hs hsteps hrun'
    · exact (hvw q).trans (max_le (le_max_left _ _) (huv q))
    · exact ⟨step_refused h hP.2 hstep,
        step_term_le h hnodup hmembers hmaj hl hp hP.1 hstep⟩

end Disruption

/-- `a` is elected, and `b` gets an entry that `c` does not get. -/
def entryAtB : List Event :=
  oneElection ++ [.propose "a" (.set "x" "1"), .leaderCheck "a", .resume 0 someClock,
    .resume 0 someClock, .deliver 2 someClock]

/-- `c` probes, and both peers answer. -/
def probesOfC : List Event :=
  [.becomePreCandidate "c", .resume 1 someClock, .deliver 3 someClock, .deliver 4 someClock,
    .receive 2 someClock, .receive 3 someClock]

theorem pre_vote_prevents_disruption_entryAtB :
    ∃ s t, run (step threeNodes) (start threeNodes) entryAtB = some s ∧
      run (step threeNodes) s probesOfC = some t ∧ (t.nodes "c").state = .preCandidate ∧
      (∀ rpc ∈ t.rpcs, rpc.src = "c" → rpc.waiting = false) ∧
      ("c", Call.preVoteQuorum) ∉ t.calls ∧
      ∀ q, (t.nodes q).currentTerm ≤ max 1 (s.nodes q).currentTerm := by
  obtain ⟨s, hrun, hgrants, hsteps, hany⟩ :
      ∃ s, run (step threeNodes) (start threeNodes) entryAtB = some s ∧
        s.NoGrants "c" ["a", "b"] ∧
        Along (step threeNodes) (fun u e => u.Calm "c" 1 e ∧ u.RefusedBy "c" ["a", "b"] e) s
          probesOfC ∧
        (run (step threeNodes) s probesOfC).any (fun t => decide
          ((t.nodes "c").state = .preCandidate ∧
            ∀ rpc ∈ t.rpcs, rpc.src = "c" → rpc.waiting = false)) = true :=
    exists_run_of_any (by decide +kernel)
  obtain ⟨t, hrun', hpre, hdone⟩ := exists_run_of_any hany
  have h := pre_vote_prevents_disruption hrun (by decide) (by decide) (by decide)
    (List.mem_cons_self (a := "a")) (by decide) hgrants hsteps hrun'
  exact ⟨s, t, hrun, hrun', hpre, hdone, h.2⟩

/-- `a` leads in term 1, and a minute later `b` hears of it again, but not
`c`. -/
def heartbeatAtB : List Event :=
  oneElection ++ [.leaderCheck "a", .resume 0 someClock, .resume 0 someClock,
    .resume 0 someClock, .resume 0 someClock, .deliver 2 someClock, .deliver 3 someClock,
    .leaderCheck "a", .resume 0 minuteLater, .resume 0 minuteLater, .deliver 4 minuteLater]

/-- `c` probes, is promoted and asks for votes. -/
def electionOfC : List Event :=
  [.becomePreCandidate "c", .resume 1 minuteLater, .deliver 5 minuteLater,
    .deliver 6 minuteLater, .receive 4 minuteLater, .receive 5 minuteLater,
    .resume 1 minuteLater, .resume 1 minuteLater, .deliver 7 minuteLater]

/-- The leader and the follower that has just heard of it grant the probe of a
node whose log is up to date. -/
theorem up_to_date_probe_disrupts :
    ∃ s t, run (step threeNodes) (start threeNodes) heartbeatAtB = some s ∧
      (s.nodes "a").state = .leader ∧ (s.nodes "a").currentTerm = 1 ∧
      (s.nodes "b").currentTerm = 1 ∧ (s.nodes "b").lastHeartbeat = minuteLater.now ∧
      (s.nodes "c").currentTerm = 1 ∧ s.NoGrants "c" ["a", "b"] ∧
      run (step threeNodes) s electionOfC = some t ∧
      (∃ tally ∈ t.probes, tally.round.args.candidateId = "c" ∧
        tally.round.totalNodes / 2 < tally.votesReceived) ∧
      1 < (t.nodes "c").currentTerm ∧ 1 < (t.nodes "a").currentTerm := by
  obtain ⟨s, hrun, hleader, hterm, htermB, hheartbeat, htermC, hgrants, hany⟩ :
      ∃ s, run (step threeNodes) (start threeNodes) heartbeatAtB = some s ∧
        (s.nodes "a").state = .leader ∧ (s.nodes "a").currentTerm = 1 ∧
        (s.nodes "b").currentTerm = 1 ∧ (s.nodes "b").lastHeartbeat = minuteLater.now ∧
        (s.nodes "c").currentTerm = 1 ∧ s.NoGrants "c" ["a", "b"] ∧
        (run (step threeNodes) s electionOfC).any (fun t => decide
          ((∃ tally ∈ t.probes, tally.round.args.candidateId = "c" ∧
              tally.round.totalNodes / 2 < tally.votesReceived) ∧
            1 < (t.nodes "c").currentTerm ∧ 1 < (t.nodes "a").currentTerm)) = true :=
    exists_run_of_any (by decide +kernel)
  obtain ⟨t, hrun', hquorum⟩ := exists_run_of_any hany
  exact ⟨s, t, hrun, hleader, hterm, htermB, hheartbeat, htermC, hgrants, hrun', hquorum⟩

end Cluster

end OxideKv
