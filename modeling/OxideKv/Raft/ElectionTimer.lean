import OxideKv.Raft.ElectionSafety

/-!
# The election timer

`run_election_timer` has one way to start an election, `become_pre_candidate`,
and that one begins only in a follower.  A node that has probed or asked for
votes without a result stays pre-candidate or candidate until a request comes
in: its own timer does nothing any more.

`election_timer_starts_round` says when the timer of some node of a cluster
without leader starts a round: exactly if one of the nodes is follower.  Along
a run that is so as long as a node that turns pre-candidate or candidate leaves
another follower, or a leader, behind.  `split_vote_stays` is a run without
lost messages that ends in three candidates.
-/

namespace OxideKv

open RaftNode Run

/-- `min_election_timeout_ms` of the configuration. -/
def minElectionTimeoutMs : Nat := 5000

/-- `should_start_election`. -/
def shouldStartElection (state : NodeState) (lastHeartbeat now electionThreshold : Nat) : Bool :=
  if state = .leader then false else decide (electionThreshold ≤ now - lastHeartbeat)

namespace RaftNode

/-! ## The role of a node -/

/-- What a call can do to the role of the node: it is kept, the node follows, or
it takes the next role on the way to leader. -/
inductive RoleStep (n : RaftNode) : NodeEvent → RaftNode → Prop where
  | kept {e : NodeEvent} {n' : RaftNode} (h : n'.state = n.state) : RoleStep n e n'
  | follows {e : NodeEvent} {n' : RaftNode} (h : n'.state = .follower) : RoleStep n e n'
  | probes {n' : RaftNode} (h : n.state = .follower) (h' : n'.state = .preCandidate) :
      RoleStep n (.enterPreVote (u64Succ n.currentTerm)) n'
  | promoted {n' : RaftNode} (clock : Clock) (h : n.state = .preCandidate) :
      RoleStep n (.preVoteQuorum clock) n'
  | candidate {n' : RaftNode} (clock : Clock) : RoleStep n (.becomeCandidate clock) n'
  | elected {e : NodeEvent} {n' : RaftNode} (h : Elects n e n') : RoleStep n e n'

theorem RoleStep.of_extends {n n' : RaftNode} {e : NodeEvent} (h : Extends n n') :
    RoleStep n e n' :=
  .kept h.state

theorem RoleStep.of_stepDown {n : RaftNode} {e : NodeEvent} (term : Nat) :
    RoleStep n e (stepDown term n) := by
  obtain ⟨storage, -, -, -, heq⟩ := stepDown_eq term n
  rw [heq]
  exact .follows rfl

theorem maybeCommit_state (clock : Clock) (n : RaftNode) :
    (maybeCommit clock n).state = n.state := by
  obtain ⟨c, -, h⟩ := maybeCommit_extends clock n
  exact h.state

theorem RoleStep.of_handleAppendEntries {n : RaftNode} {e : NodeEvent} (clock : Clock)
    (args : AppendEntriesArgs) : RoleStep n e (handleAppendEntries clock args n).2 := by
  rcases handleAppendEntries_follows clock args n with heq | h
  · rw [heq]
    exact .kept rfl
  · exact .follows h.state

theorem step_role {n n' : RaftNode} {e : NodeEvent} (h : n.step e = some n') :
    RoleStep n e n' := by
  cases e with
  | propose | proposeBatch | proposeAddNode | proposeRemoveNode | proposeAbortTx =>
    exact .of_extends (step_proposed h rfl).toExtends
  | requestVote clock args =>
    obtain rfl := Option.some.inj h
    rcases handleRequestVote_cases clock args n with
      ⟨-, heq⟩ | ⟨-, ⟨-, -, storage, -, -, -, heq⟩ | heq⟩
    · rw [heq]
      exact .kept rfl
    · rw [heq]
      by_cases hlt : n.currentTerm < args.term
      · exact .follows (if_pos hlt)
      · exact .kept (if_neg hlt)
    · rw [heq]
      unfold adoptNewer
      split_ifs
      · exact .of_stepDown args.term
      · exact .kept rfl
  | preVote clock args =>
    obtain rfl := Option.some.inj h
    unfold handlePreVote
    dsimp only
    split_ifs <;> exact .kept rfl
  | txVoteRequest clock req =>
    obtain rfl := Option.some.inj h
    rcases handleTxVoteRequest_extends clock req n with ⟨-, heq⟩ | ⟨c, -, hext⟩
    · rw [heq]
      exact .of_stepDown req.term
    · exact .kept hext.state
  | appendEntries clock args =>
    obtain rfl := Option.some.inj h
    exact .of_handleAppendEntries clock args
  | installSnapshot clock args =>
    obtain ⟨r, hr, rfl⟩ := Option.map_eq_some_iff.mp h
    rcases handleInstallSnapshot_cases hr with ⟨-, heq⟩ | ⟨-, sm, heq⟩ <;> rw [heq]
    · exact .kept rfl
    · exact .follows rfl
  | becomeCandidate clock => exact .candidate clock
  | enterPreVote probedTerm =>
    obtain rfl := Option.some.inj h
    unfold enterPreVote
    split_ifs with hfollower
    · obtain ⟨hs, rfl⟩ := hfollower
      exact .probes hs rfl
    · exact .kept rfl
  | preVoteAlone clock =>
    obtain rfl := Option.some.inj h
    rcases preVoteAlone_cases clock n with heq | helects
    · rw [heq]
      exact .kept rfl
    · exact .elected helects
  | preVoteStale =>
    obtain rfl := Option.some.inj h
    unfold preVoteStale
    split_ifs
    · exact .follows rfl
    · exact .kept rfl
  | preVoteQuorum clock =>
    obtain rfl := Option.some.inj h
    by_cases hs : n.state = .preCandidate
    · exact .promoted clock hs
    · unfold preVoteQuorum
      rw [if_pos hs]
      exact .kept rfl
  | voteQuorum clock term =>
    obtain rfl := Option.some.inj h
    rcases voteQuorum_cases clock n term with heq | ⟨-, helects⟩
    · rw [heq]
      exact .kept rfl
    · exact .elected helects
  | voteRefused term reply =>
    obtain rfl := Option.some.inj h
    unfold voteRefused
    split_ifs
    · exact .of_stepDown reply.term
    · exact .kept rfl
  | coordinatorStepDown leaderTerm resp =>
    obtain rfl := Option.some.inj h
    unfold coordinatorStepDown
    split_ifs
    · exact .of_stepDown resp.term
    · exact .kept rfl
    · exact .kept rfl
  | syncAlone clock =>
    obtain rfl := Option.some.inj h
    unfold syncAlone
    split_ifs
    · exact .kept (maybeCommit_state clock n)
    · exact .kept rfl
  | appendReply clock peer args reply =>
    obtain rfl := Option.some.inj h
    unfold appendReply
    dsimp only
    split_ifs
    · exact .kept (maybeCommit_state clock _)
    · exact .of_stepDown reply.term
    · exact .kept rfl
    · exact .kept rfl
  | maybeSnapshot thresholdBytes =>
    obtain ⟨r, hr, rfl⟩ := Option.map_eq_some_iff.mp h
    rcases maybeSnapshot_cases hr with rfl | ⟨_, data, storage, -, heq, -⟩
    · exact .kept rfl
    · rw [heq]
      exact .kept rfl

/-- The node is follower or leader. -/
def Settles (n : RaftNode) : Prop := n.state = .follower ∨ n.state = .leader

instance (n : RaftNode) : Decidable n.Settles := inferInstanceAs (Decidable (_ ∨ _))

/-- Two calls take a follower or a leader out of its role. -/
theorem Settles.step {n n' : RaftNode} {e : NodeEvent} (hn : n.Settles)
    (h : n.step e = some n') :
    n'.Settles ∨ (∃ clock, e = .becomeCandidate clock) ∨
      n.state = .follower ∧ e = .enterPreVote (u64Succ n.currentTerm) := by
  cases step_role h with
  | kept hsame => exact Or.inl (hn.imp hsame.trans hsame.trans)
  | follows hfollower => exact Or.inl (Or.inl hfollower)
  | probes hfollower => exact Or.inr (Or.inr ⟨hfollower, rfl⟩)
  | promoted clock hpre =>
    rcases hn with hs | hs
    · cases hpre.symm.trans hs
    · cases hpre.symm.trans hs
  | candidate clock => exact Or.inr (Or.inl ⟨clock, rfl⟩)
  | elected helects => exact Or.inl (Or.inr helects.leader.1)

end RaftNode

namespace Cluster

/-! ## The timer of a node -/

/-- The timer of `p` fires: the last check of `run_election_timer`, and
`become_pre_candidate` with its read and its write. -/
def electionTimer (m : Membership) (p : String) (clock : Clock) (s : Cluster) : Option Cluster :=
  if shouldStartElection (s.nodes p).state (s.nodes p).lastHeartbeat clock.now
      minElectionTimeoutMs then
    run (step m) s [.becomePreCandidate p, .resume s.calls.length clock]
  else some s

/-- The node takes another role or sends requests. -/
def startsRound (m : Membership) (p : String) (clock : Clock) (s : Cluster) : Bool :=
  (s.electionTimer m p clock).any fun s' =>
    (s'.nodes p).state ≠ (s.nodes p).state ∨ s'.rpcs ≠ s.rpcs

theorem run_becomePreCandidate {m : Membership} {s : Cluster} {p : String}
    (hp : p ∈ m.members) (clock : Clock) :
    run (step m) s [.becomePreCandidate p, .resume s.calls.length clock] =
      some (finish p
        ((Call.enterPreVote (s.nodes p).preVoteRound).resume clock (s.nodes p)) s) := by
  have hlast : (s.addCalls p [.enterPreVote (s.nodes p).preVoteRound]).calls[s.calls.length]? =
      some (p, .enterPreVote (s.nodes p).preVoteRound) := by
    simp [addCalls]
  have herase : (s.addCalls p [.enterPreVote (s.nodes p).preVoteRound]).calls.eraseIdx
      s.calls.length = s.calls := by
    simp [addCalls, List.eraseIdx_append_of_length_le]
  simp only [run, step, if_pos hp, Option.bind_some, hlast, Option.map_some, herase]
  rfl

/-- A timer that is due starts a round in a follower, and only there. -/
theorem startsRound_iff {m : Membership} {p : String} {clock : Clock} {s : Cluster}
    (hp : p ∈ m.members) (hleader : (s.nodes p).state ≠ .leader)
    (hdue : minElectionTimeoutMs ≤ clock.now - (s.nodes p).lastHeartbeat) :
    s.startsRound m p clock = true ↔ (s.nodes p).state = .follower := by
  have hcheck : shouldStartElection (s.nodes p).state (s.nodes p).lastHeartbeat clock.now
      minElectionTimeoutMs = true := by
    unfold shouldStartElection
    rw [if_neg hleader]
    exact decide_eq_true hdue
  unfold startsRound electionTimer
  rw [if_pos hcheck, run_becomePreCandidate hp, Option.any_some, decide_eq_true_iff]
  constructor
  · intro h
    by_contra hs
    have hrefused : (s.nodes p).enterPreVote (s.nodes p).preVoteRound.args.term =
        (false, s.nodes p) := if_neg fun hc => hs hc.1
    simp [Call.resume, hrefused, finish] at h
  · intro hs
    have hentered : (s.nodes p).enterPreVote (s.nodes p).preVoteRound.args.term =
        (true, { s.nodes p with state := .preCandidate }) := if_pos ⟨hs, rfl⟩
    refine Or.inl ?_
    rw [finish_nodes_self, hs]
    simp only [Call.resume, hentered]
    split_ifs <;> simp

/-! ## Runs -/

/-- Another member is follower or leader. -/
def OtherSettles (m : Membership) (p : String) (s : Cluster) : Prop :=
  ∃ q ∈ m.members, q ≠ p ∧ (s.nodes q).Settles

instance (m : Membership) (p : String) (s : Cluster) : Decidable (s.OtherSettles m p) :=
  inferInstanceAs (Decidable (∃ q ∈ m.members, _))

/-- A node that turns pre-candidate or candidate leaves another follower or a
leader behind. -/
def LeavesOneBehind (m : Membership) (s : Cluster) : Event → Prop
  | .becomeCandidate p _ => s.OtherSettles m p
  | .resume k _ =>
      match s.calls[k]? with
      | some (p, .enterPreVote round) =>
          (s.nodes p).state = .follower → u64Succ (s.nodes p).currentTerm = round.args.term →
            s.OtherSettles m p
      | _ => True
  | _ => True

instance (m : Membership) (s : Cluster) (e : Event) : Decidable (s.LeavesOneBehind m e) :=
  decidable_of_iff
    ((match e with
      | .becomeCandidate p _ => decide (s.OtherSettles m p)
      | .resume k _ =>
          match s.calls[k]? with
          | some (p, .enterPreVote round) =>
              decide ((s.nodes p).state = .follower →
                u64Succ (s.nodes p).currentTerm = round.args.term → s.OtherSettles m p)
          | _ => true
      | _ => true) = true) <| by
    unfold LeavesOneBehind
    split
    · rw [decide_eq_true_eq]
    · split
      · rw [decide_eq_true_eq]
      · simp
    · simp

theorem nodeEvent_becomeCandidate {s : Cluster} {e : Event} {p : String} {clock : Clock}
    (h : s.nodeEvent e = some (p, .becomeCandidate clock)) : e = .becomeCandidate p clock := by
  cases nodeCall_of_nodeEvent h with
  | candidate hne =>
    cases hne
    rfl
  | @resume k clock' c hk hne => cases c <;> cases hne
  | @deliver i clock' rpc hrpc hdst hne =>
    cases hr : rpc.request <;> rw [hr] at hne <;> cases hne
  | receive hj hrpc hsrc hne =>
    rcases processEvent_cases hne with ⟨_, _, hc⟩ | hc | ⟨_, _, hc, -⟩ <;> cases hc
  | propose hne | proposeBatch hne | proposeAbortTx hne => cases hne

theorem nodeEvent_enterPreVote {s : Cluster} {e : Event} {p : String} {term : Nat}
    (h : s.nodeEvent e = some (p, .enterPreVote term)) :
    ∃ k clock round, e = .resume k clock ∧ s.calls[k]? = some (p, .enterPreVote round) ∧
      round.args.term = term := by
  cases nodeCall_of_nodeEvent h with
  | @resume k clock c hk hne =>
    cases c with
    | enterPreVote round =>
      exact ⟨k, clock, round, rfl, hk, NodeEvent.enterPreVote.inj (Option.some.inj hne)⟩
    | _ => cases hne
  | @deliver i clock rpc hrpc hdst hne =>
    cases hr : rpc.request <;> rw [hr] at hne <;> cases hne
  | receive hj hrpc hsrc hne =>
    rcases processEvent_cases hne with ⟨_, _, hc⟩ | hc | ⟨_, _, hc, -⟩ <;> cases hc
  | candidate hne | propose hne | proposeBatch hne | proposeAbortTx hne => cases hne

/-- A node that another one takes no step for stays as it is. -/
theorem OtherSettles.step {m : Membership} {s s' : Cluster} {e : Event} {p : String}
    {ne : NodeEvent} (h : s.OtherSettles m p) (hne : s.nodeEvent e = some (p, ne))
    (hstep : s.step m e = some s') : ∃ q ∈ m.members, (s'.nodes q).Settles := by
  obtain ⟨q, hq, hqp, hsettles⟩ := h
  refine ⟨q, hq, ?_⟩
  rcases step_node hstep q with hsame | ⟨ne', hne', -⟩ | ⟨clock, rfl, -⟩
  · rw [hsame]
    exact hsettles
  · exact absurd (Prod.mk.inj (Option.some.inj (hne'.symm.trans hne))).1 hqp
  · cases hne

theorem step_settles {m : Membership} {s s' : Cluster} {e : Event}
    (h : ∃ p ∈ m.members, (s.nodes p).Settles) (hleaves : s.LeavesOneBehind m e)
    (hstep : s.step m e = some s') : ∃ p ∈ m.members, (s'.nodes p).Settles := by
  obtain ⟨p, hp, hsettles⟩ := h
  rcases step_node hstep p with hsame | ⟨ne, hne, hnode⟩ | ⟨clock, -, hstart⟩
  · exact ⟨p, hp, by rw [hsame]; exact hsettles⟩
  · rcases hsettles.step hnode with hkept | ⟨clock, rfl⟩ | ⟨hfollower, rfl⟩
    · exact ⟨p, hp, hkept⟩
    · obtain rfl := nodeEvent_becomeCandidate hne
      exact OtherSettles.step hleaves hne hstep
    · obtain ⟨k, clock, round, rfl, hk, hterm⟩ := nodeEvent_enterPreVote hne
      simp only [LeavesOneBehind, hk] at hleaves
      exact (hleaves hfollower hterm.symm).step hne hstep
  · exact ⟨p, hp, Or.inl (startup_follower hstart)⟩

/-- In a cluster without leader whose timers are all due, a timer starts a round
exactly if a node is follower.  It is so after every run that leaves one
behind. -/
theorem election_timer_starts_round {m : Membership} {es : List Event} {s : Cluster}
    {clock : String → Clock} (hsize : m.members ≠ [])
    (hrun : run (step m) (start m) es = some s)
    (hleader : ∀ p ∈ m.members, (s.nodes p).state ≠ .leader)
    (hdue : ∀ p ∈ m.members, minElectionTimeoutMs ≤ (clock p).now - (s.nodes p).lastHeartbeat) :
    ((∃ p ∈ m.members, s.startsRound m p (clock p) = true) ↔
      ∃ p ∈ m.members, (s.nodes p).state = .follower) ∧
    (Along (step m) (LeavesOneBehind m) (start m) es →
      ∃ p ∈ m.members, s.startsRound m p (clock p) = true) := by
  have hiff : ∀ p ∈ m.members, s.startsRound m p (clock p) = true ↔
      (s.nodes p).state = .follower := fun p hp =>
    startsRound_iff hp (hleader p hp) (hdue p hp)
  refine ⟨exists_congr fun p => and_congr_right (hiff p), fun halong => ?_⟩
  have hstart : ∃ p ∈ m.members, ((start m).nodes p).Settles := by
    obtain ⟨p, hp⟩ := List.exists_mem_of_ne_nil m.members hsize
    exact ⟨p, hp, Or.inl rfl⟩
  obtain ⟨p, hp, hsettles⟩ := run_invariant (I := fun t : Cluster =>
    ∃ p ∈ m.members, (t.nodes p).Settles) (fun hI hleaves hstep => step_settles hI hleaves hstep)
    hstart halong hrun
  exact ⟨p, hp, (hiff p hp).mpr (hsettles.resolve_right (hleader p hp))⟩

/-- The clock a minute later. -/
def minuteLater : Clock := { now := 60000, unixMs := fun _ => 0 }

/-- `a` probes, and nobody answers. -/
def loneProbe : List Event := [.becomePreCandidate "a", .resume 0 someClock]

theorem election_timer_starts_round_loneProbe :
    ∃ s, run (step threeNodes) (start threeNodes) loneProbe = some s ∧
      (s.nodes "a").state = .preCandidate ∧
      ∃ p ∈ threeNodes.members, s.startsRound threeNodes p minuteLater = true := by
  obtain ⟨s, hrun, hpre, hleader, hdue⟩ :
      ∃ s, run (step threeNodes) (start threeNodes) loneProbe = some s ∧
        (s.nodes "a").state = .preCandidate ∧
        (∀ p ∈ threeNodes.members, (s.nodes p).state ≠ .leader) ∧
        ∀ p ∈ threeNodes.members,
          minElectionTimeoutMs ≤ minuteLater.now - (s.nodes p).lastHeartbeat :=
    exists_run_of_any (by decide +kernel)
  have halong : Along (step threeNodes) (LeavesOneBehind threeNodes) (start threeNodes)
      loneProbe := by decide +kernel
  refine ⟨s, hrun, hpre, ?_⟩
  have hstarts := @election_timer_starts_round threeNodes loneProbe s (fun _ => minuteLater)
    (by decide) hrun hleader hdue
  exact hstarts.2 halong

/-- All three nodes probe at once, all probes are granted, and each node votes
for itself. -/
def splitVote : List Event :=
  ["a", "b", "c"].map Event.becomePreCandidate ++ List.replicate 3 (.resume 0 someClock) ++
    (List.range 6).map (Event.deliver · someClock) ++
    (List.range 6).map (Event.receive · someClock) ++
    List.replicate 6 (.resume 0 someClock) ++
    (List.range' 6 6).map (Event.deliver · someClock) ++
    (List.range' 6 6).map (Event.receive · someClock)

/-- Every message has arrived, and no timer does anything. -/
theorem split_vote_stays :
    ∃ s, run (step threeNodes) (start threeNodes) splitVote = some s ∧
      (∀ p ∈ threeNodes.members, (s.nodes p).state ≠ .leader) ∧
      s.calls = [] ∧ (∀ rpc ∈ s.rpcs, rpc.waiting = false) ∧
      (∀ p ∈ threeNodes.members,
        minElectionTimeoutMs ≤ minuteLater.now - (s.nodes p).lastHeartbeat) ∧
      ¬∃ p ∈ threeNodes.members, s.startsRound threeNodes p minuteLater = true :=
  exists_run_of_any (by decide +kernel)

end Cluster

end OxideKv
