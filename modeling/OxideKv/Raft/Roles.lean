import OxideKv.Raft.Frame

/-!
# How a node becomes candidate and leader

`Steady` is what most calls can do to the role of a node: a candidate has just
been promoted or was one before, in the same term and with the same log, and a
leader was one before, in the same term and with a log that only grew.  Two
calls elect the node.  `step_roles` says so of every call, with no condition on
the messages.
-/

namespace OxideKv

namespace RaftNode

structure Steady (n n' : RaftNode) : Prop where
  nodeId : n'.nodeId = n.nodeId
  candidate : n'.state = .candidate →
    (n.state = .candidate ∧ n'.currentTerm = n.currentTerm ∧ n'.log = n.log) ∨
      (n'.currentTerm = u64Succ n.currentTerm ∧ n'.voteFor = some n.nodeId ∧ n'.log = n.log)
  leader : n'.state = .leader →
    n.state = .leader ∧ n'.currentTerm = n.currentTerm ∧ n.log <+: n'.log
  commit : n'.state = .leader → n.commitIndex ≤ n'.commitIndex

/-- The call elects the node.  A node without peers is promoted in the same
call. -/
inductive Elects (n : RaftNode) : NodeEvent → RaftNode → Prop where
  | quorum (clock : Clock) (h : n.state = .candidate) :
      Elects n (.voteQuorum clock n.currentTerm) (becomeLeader clock n)
  | alone (clock : Clock) (h : n.state = .preCandidate) :
      Elects n (.preVoteAlone clock) (becomeLeader clock (promoteToCandidate clock n))

namespace Steady

variable {n n' : RaftNode}

/-- The role, the term and the log are the same. -/
theorem of_same (hid : n'.nodeId = n.nodeId) (hstate : n'.state = n.state)
    (hterm : n'.currentTerm = n.currentTerm) (hlog : n'.log = n.log)
    (hcommit : n'.commitIndex = n.commitIndex) : Steady n n' :=
  ⟨hid, fun h => Or.inl ⟨hstate ▸ h, hterm, hlog⟩,
    fun h => ⟨hstate ▸ h, hterm, hlog ▸ List.prefix_refl _⟩, fun _ => hcommit.ge⟩

theorem refl (n : RaftNode) : Steady n n := of_same rfl rfl rfl rfl rfl

/-- Neither role is taken. -/
theorem of_passive (hid : n'.nodeId = n.nodeId) (hc : n'.state ≠ .candidate)
    (hl : n'.state ≠ .leader) : Steady n n' :=
  ⟨hid, fun h => absurd h hc, fun h => absurd h hl, fun h => absurd h hl⟩

theorem of_follower (hid : n'.nodeId = n.nodeId) (hs : n'.state = .follower) : Steady n n' :=
  of_passive hid (by rw [hs]; simp) (by rw [hs]; simp)

theorem of_extends (h : Extends n n') : Steady n n' := by
  refine ⟨h.nodeId, fun hs => Or.inl ?_, fun hs => ?_, fun _ => h.commitIndex.ge⟩
  · have hn : n.state = .candidate := h.state ▸ hs
    exact ⟨hn, h.currentTerm, h.log_eq (by rw [hn]; simp)⟩
  · exact ⟨h.state ▸ hs, h.currentTerm, h.isPrefix⟩

/-- The same with a commit index of its own. -/
theorem of_extends_commit {c : Nat} (hc : n.commitIndex ≤ c)
    (h : Extends { n with commitIndex := c } n') : Steady n n' := by
  have hsteady := of_extends h
  exact ⟨hsteady.nodeId, hsteady.candidate, hsteady.leader, fun hs => hc.trans (hsteady.commit hs)⟩

end Steady

section Calls

variable (clock : Clock) (n : RaftNode)

theorem stepDown_steady (term : Nat) : Steady n (stepDown term n) := by
  obtain ⟨storage, -, -, -, heq⟩ := stepDown_eq term n
  rw [heq]
  exact .of_follower rfl rfl

theorem adoptNewer_steady (term : Nat) : Steady n (adoptNewer term n) := by
  unfold adoptNewer
  split_ifs
  · exact stepDown_steady n term
  · exact .refl n

theorem promoteToCandidate_steady : Steady n (promoteToCandidate clock n) := by
  obtain ⟨storage, -, -, -, heq⟩ := promoteToCandidate_eq clock n
  rw [heq]
  exact ⟨rfl, fun _ => Or.inr ⟨rfl, rfl, rfl⟩, nofun, nofun⟩

theorem maybeCommit_steady : Steady n (maybeCommit clock n) := by
  obtain ⟨c, hle, h⟩ := maybeCommit_extends clock n
  exact .of_extends_commit hle h

theorem handleRequestVote_steady (args : RequestVoteArgs) :
    Steady n (handleRequestVote clock args n).2 := by
  rcases handleRequestVote_cases clock args n with
    ⟨_, heq⟩ | ⟨hle, ⟨_, _, storage, -, -, -, heq⟩ | heq⟩ <;> rw [heq]
  · exact .refl n
  · by_cases hlt : n.currentTerm < args.term
    · exact .of_follower rfl (if_pos hlt)
    · exact .of_same rfl (if_neg hlt) (by dsimp only; omega) rfl rfl
  · exact adoptNewer_steady n args.term

theorem handleTxVoteRequest_steady (req : VoteRequest) :
    Steady n (handleTxVoteRequest clock req n).2 := by
  rcases handleTxVoteRequest_extends clock req n with ⟨-, heq⟩ | ⟨c, hle, hext⟩
  · rw [heq]
    exact stepDown_steady n req.term
  · exact .of_extends_commit hle hext

theorem handleAppendEntries_steady (args : AppendEntriesArgs) :
    Steady n (handleAppendEntries clock args n).2 := by
  rcases handleAppendEntries_follows clock args n with heq | h
  · rw [heq]
    exact .refl n
  · exact .of_follower h.nodeId h.state

theorem appendReply_steady (peer : String) (args : AppendEntriesArgs)
    (reply : AppendReplyArgs) : Steady n (appendReply clock peer args reply n) := by
  unfold appendReply
  dsimp only
  split_ifs with hsuccess hnew hnext
  · have h := maybeCommit_steady clock
      { n with
        matchIndex := insertIndex n.matchIndex peer (args.prevLogIndex + args.entries.length)
        nextIndex := insertIndex n.nextIndex peer (args.prevLogIndex + args.entries.length + 1)
        lastQuorumHeartbeatAt := some clock.now }
    exact ⟨h.nodeId, h.candidate, h.leader, h.commit⟩
  · exact stepDown_steady n reply.term
  · exact .of_same rfl rfl rfl rfl rfl
  · exact .refl n

theorem becomeLeader_eq (h : n.state ≠ .leader) : becomeLeader clock n =
    { n with
      state := .leader
      nextIndex := fun p => if p ∈ n.peers then some (n.log.length + 1) else none
      lastHeartbeat := clock.now } := by
  unfold becomeLeader
  rw [if_neg h]

theorem voteQuorum_cases (term : Nat) : voteQuorum clock term n = n ∨
    n.currentTerm = term ∧ Elects n (.voteQuorum clock term) (voteQuorum clock term n) := by
  unfold voteQuorum
  split_ifs with hcand
  · obtain ⟨hs, rfl⟩ := hcand
    exact Or.inr ⟨rfl, .quorum clock hs⟩
  · exact Or.inl rfl

theorem preVoteAlone_cases : preVoteAlone clock n = n ∨
    Elects n (.preVoteAlone clock) (preVoteAlone clock n) := by
  unfold preVoteAlone
  split_ifs with hs
  · obtain ⟨storage, -, -, -, heq⟩ := promoteToCandidate_eq clock n
    have hchecked : (becomeLeaderChecked clock (promoteToCandidate clock n)).2 =
        becomeLeader clock (promoteToCandidate clock n) := by
      unfold becomeLeaderChecked
      rw [if_neg (by rw [heq]; simp)]
    rw [hchecked]
    exact Or.inr (.alone clock hs)
  · exact Or.inl rfl

end Calls

theorem handleInstallSnapshot_steady {clock : Clock} {args : InstallSnapshotArgs}
    {n : RaftNode} {r : InstallSnapshotReplyArgs × RaftNode}
    (h : handleInstallSnapshot clock args n = some r) : Steady n r.2 := by
  rcases handleInstallSnapshot_cases h with ⟨-, heq⟩ | ⟨-, sm, heq⟩ <;> rw [heq]
  · exact .refl n
  · exact .of_follower (adoptNewer_steady n args.term).nodeId rfl

/-- What a call can do to the role of the node. -/
theorem step_roles {n n' : RaftNode} {e : NodeEvent} (h : n.step e = some n') :
    Steady n n' ∨ Elects n e n' := by
  cases e with
  | propose | proposeBatch | proposeAddNode | proposeRemoveNode | proposeAbortTx =>
    exact Or.inl (.of_extends (step_proposed h rfl).toExtends)
  | requestVote clock args =>
    obtain rfl := Option.some.inj h
    refine Or.inl ?_
    exact handleRequestVote_steady clock n args
  | preVote clock args =>
    obtain rfl := Option.some.inj h
    refine Or.inl ?_
    unfold handlePreVote
    dsimp only
    split_ifs <;> exact .of_same rfl rfl rfl rfl rfl
  | txVoteRequest clock req =>
    obtain rfl := Option.some.inj h
    refine Or.inl ?_
    exact handleTxVoteRequest_steady clock n req
  | appendEntries clock args =>
    obtain rfl := Option.some.inj h
    refine Or.inl ?_
    exact handleAppendEntries_steady clock n args
  | installSnapshot clock args =>
    obtain ⟨r, hr, rfl⟩ := Option.map_eq_some_iff.mp h
    refine Or.inl ?_
    exact handleInstallSnapshot_steady hr
  | becomeCandidate clock =>
    obtain rfl := Option.some.inj h
    refine Or.inl ?_
    exact promoteToCandidate_steady clock n
  | enterPreVote probedTerm =>
    obtain rfl := Option.some.inj h
    refine Or.inl ?_
    unfold enterPreVote
    split_ifs
    · exact .of_passive rfl (by simp) (by simp)
    · exact .refl n
  | preVoteAlone clock =>
    obtain rfl := Option.some.inj h
    rcases preVoteAlone_cases clock n with heq | helect
    · exact Or.inl (by rw [heq]; exact .refl n)
    · exact Or.inr helect
  | preVoteStale =>
    obtain rfl := Option.some.inj h
    refine Or.inl ?_
    unfold preVoteStale
    split_ifs
    · exact .of_follower rfl rfl
    · exact .refl n
  | preVoteQuorum clock =>
    obtain rfl := Option.some.inj h
    refine Or.inl ?_
    unfold preVoteQuorum
    split_ifs
    · exact .refl n
    · exact promoteToCandidate_steady clock n
  | voteQuorum clock term =>
    obtain rfl := Option.some.inj h
    rcases voteQuorum_cases clock n term with heq | ⟨-, helect⟩
    · exact Or.inl (by rw [heq]; exact .refl n)
    · exact Or.inr helect
  | voteRefused term reply =>
    obtain rfl := Option.some.inj h
    refine Or.inl ?_
    unfold voteRefused
    split_ifs
    · exact stepDown_steady n reply.term
    · exact .refl n
  | coordinatorStepDown leaderTerm resp =>
    obtain rfl := Option.some.inj h
    refine Or.inl ?_
    unfold coordinatorStepDown
    split_ifs
    · exact stepDown_steady n resp.term
    · exact .refl n
    · exact .refl n
  | syncAlone clock =>
    obtain rfl := Option.some.inj h
    refine Or.inl ?_
    unfold syncAlone
    split_ifs
    · exact maybeCommit_steady clock n
    · exact .refl n
  | appendReply clock peer args reply =>
    obtain rfl := Option.some.inj h
    refine Or.inl ?_
    exact appendReply_steady clock n peer args reply
  | maybeSnapshot thresholdBytes =>
    obtain ⟨r, hr, rfl⟩ := Option.map_eq_some_iff.mp h
    refine Or.inl ?_
    rcases maybeSnapshot_cases hr with rfl | ⟨_, data, storage, _, heq, _⟩
    · exact .refl n
    · rw [heq]
      exact .of_same rfl rfl rfl rfl rfl

theorem Elects.leader {n n' : RaftNode} {e : NodeEvent} (h : Elects n e n') :
    n'.state = .leader ∧ n'.nodeId = n.nodeId ∧ n'.log = n.log ∧
      (n.state = .candidate ∧ n'.currentTerm = n.currentTerm ∧ n'.voteFor = n.voteFor ∨
        n.state = .preCandidate ∧ n'.currentTerm = u64Succ n.currentTerm ∧
          n'.voteFor = some n.nodeId) := by
  cases h with
  | quorum clock hs =>
    rw [becomeLeader_eq clock n (by rw [hs]; simp)]
    exact ⟨rfl, rfl, rfl, Or.inl ⟨hs, rfl, rfl⟩⟩
  | alone clock hs =>
    obtain ⟨storage, -, -, -, heq⟩ := promoteToCandidate_eq clock n
    rw [heq, becomeLeader_eq clock _ (by simp)]
    exact ⟨rfl, rfl, rfl, Or.inr ⟨hs, rfl, rfl⟩⟩

/-- The call elects the node. -/
def IsElection (n : RaftNode) : NodeEvent → Prop
  | .voteQuorum _ term => n.state = .candidate ∧ n.currentTerm = term
  | .preVoteAlone _ => n.state = .preCandidate
  | _ => False

instance (n : RaftNode) (e : NodeEvent) : Decidable (n.IsElection e) := by
  unfold IsElection
  split <;> infer_instance

theorem Elects.isElection {n n' : RaftNode} {e : NodeEvent} (h : Elects n e n') :
    n.IsElection e := by
  cases h with
  | quorum clock hs => exact ⟨hs, rfl⟩
  | alone clock hs => exact hs

/-- A candidate after a call. -/
theorem step_candidate {n n' : RaftNode} {e : NodeEvent} (h : n.step e = some n')
    (hs : n'.state = .candidate) :
    (n.state = .candidate ∧ n'.currentTerm = n.currentTerm ∧ n'.log = n.log) ∨
      (n'.currentTerm = u64Succ n.currentTerm ∧ n'.voteFor = some n.nodeId ∧
        n'.log = n.log) := by
  rcases step_roles h with hsteady | helects
  · exact hsteady.candidate hs
  · rw [helects.leader.1] at hs
    cases hs

/-- A leader after a call that was not one before. -/
theorem step_elects {n n' : RaftNode} {e : NodeEvent} (h : n.step e = some n')
    (hold : n.state ≠ .leader) (hs : n'.state = .leader) : Elects n e n' := by
  rcases step_roles h with hsteady | helects
  · exact absurd (hsteady.leader hs).1 hold
  · exact helects

/-- A leader after a call that was one before. -/
theorem step_leader {n n' : RaftNode} {e : NodeEvent} (h : n.step e = some n')
    (hold : n.state = .leader) (hs : n'.state = .leader) :
    n'.currentTerm = n.currentTerm ∧ n.log <+: n'.log := by
  rcases step_roles h with hsteady | helects
  · exact (hsteady.leader hs).2
  · rcases helects.leader.2.2.2 with ⟨hc, -⟩ | ⟨hc, -⟩
    · rw [hold] at hc
      cases hc
    · rw [hold] at hc
      cases hc

/-- The commit index of a leader does not go down. -/
theorem step_leader_commit {n n' : RaftNode} {e : NodeEvent} (h : n.step e = some n')
    (hold : n.state = .leader) (hs : n'.state = .leader) : n.commitIndex ≤ n'.commitIndex := by
  rcases step_roles h with hsteady | helects
  · exact hsteady.commit hs
  · rcases helects.leader.2.2.2 with ⟨hc, -⟩ | ⟨hc, -⟩
    · rw [hold] at hc
      cases hc
    · rw [hold] at hc
      cases hc

theorem step_nodeId {n n' : RaftNode} {e : NodeEvent} (h : n.step e = some n') :
    n'.nodeId = n.nodeId := by
  rcases step_roles h with hsteady | helects
  · exact hsteady.nodeId
  · exact helects.leader.2.1

end RaftNode

end OxideKv
