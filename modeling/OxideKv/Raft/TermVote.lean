import OxideKv.Raft.Frame

/-!
# The term never goes back and the vote of a term stands

`TermVoteLe n n'` compares the term and the vote of two states of a node.
Eight places of the source write the pair.  The handlers compare the term of
the message with the term of the node before they write.  Two reply handlers
compare it with a term that was captured before the request was sent:
`request_votes` and `coordinate_tx_inner`.  `KeepsTermAndVote` is the
condition on the state of the node under which a step does no harm, and
`termVote_monotone_iff` says that it is exact in every run.
-/

namespace OxideKv

open Run

namespace RaftNode

/-- The term has not gone back, and within a term the vote is kept. -/
structure TermVoteLe (n n' : RaftNode) : Prop where
  term : n.currentTerm ≤ n'.currentTerm
  vote : n'.currentTerm = n.currentTerm → ∀ c, n.voteFor = some c → n'.voteFor = some c

namespace TermVoteLe

variable {n n₁ n₂ : RaftNode}

theorem refl (n : RaftNode) : TermVoteLe n n := ⟨Nat.le_refl _, fun _ _ h => h⟩

theorem trans (h₁ : TermVoteLe n n₁) (h₂ : TermVoteLe n₁ n₂) : TermVoteLe n n₂ := by
  have hle₁ := h₁.term
  have hle₂ := h₂.term
  refine ⟨by omega, fun heq c hc => ?_⟩
  exact h₂.vote (by omega) c (h₁.vote (by omega) c hc)

theorem of_eq (hterm : n₁.currentTerm = n.currentTerm) (hvote : n₁.voteFor = n.voteFor) :
    TermVoteLe n n₁ :=
  ⟨hterm.ge, fun _ _ hc => hvote.trans hc⟩

theorem of_lt (h : n.currentTerm < n₁.currentTerm) : TermVoteLe n n₁ :=
  ⟨h.le, fun heq => by omega⟩

theorem of_extends (h : Extends n n₁) : TermVoteLe n n₁ := of_eq h.currentTerm h.voteFor

end TermVoteLe

/-! ## The steps -/

/-- Adopting a term is harmless above the present term, and within it as long
as the node has not voted. -/
def MayAdopt (n : RaftNode) (term : Nat) : Prop :=
  n.currentTerm < term ∨ n.currentTerm = term ∧ n.voteFor = none

instance (n : RaftNode) (term : Nat) : Decidable (n.MayAdopt term) :=
  inferInstanceAs (Decidable (_ ∨ _))

theorem stepDown_termVoteLe_iff (n : RaftNode) (term : Nat) :
    TermVoteLe n (stepDown term n) ↔ n.MayAdopt term := by
  obtain ⟨storage, -, -, -, heq⟩ := stepDown_eq term n
  rw [heq, MayAdopt]
  constructor
  · rintro ⟨hterm, hvote⟩
    rcases Nat.lt_or_eq_of_le hterm with hlt | hsame
    · exact Or.inl hlt
    · refine Or.inr ⟨hsame, Option.eq_none_iff_forall_ne_some.mpr fun c hc => ?_⟩
      have := hvote hsame.symm c hc
      simp at this
  · rintro (hlt | ⟨hsame, hnone⟩)
    · exact TermVoteLe.of_lt hlt
    · exact ⟨hsame.le, fun _ c hc => by rw [hnone] at hc; cases hc⟩

theorem promoteToCandidate_termVoteLe_iff (clock : Clock) (n : RaftNode) :
    TermVoteLe n (promoteToCandidate clock n) ↔ n.currentTerm + 1 ≠ 2 ^ 64 := by
  constructor
  · rintro ⟨hterm, -⟩ hmax
    have hzero : (promoteToCandidate clock n).currentTerm = 0 := if_pos hmax
    omega
  · intro hne
    have hsucc : (promoteToCandidate clock n).currentTerm = n.currentTerm + 1 := if_neg hne
    exact TermVoteLe.of_lt (by omega)

/-- The condition on the state before a step under which the step keeps the
term and the vote. -/
def KeepsTermAndVote (n : RaftNode) : NodeEvent → Prop
  | .becomeCandidate _ => n.currentTerm + 1 ≠ 2 ^ 64
  | .preVoteAlone _ => n.state = .preCandidate → n.currentTerm + 1 ≠ 2 ^ 64
  | .preVoteQuorum _ => n.state = .preCandidate → n.currentTerm + 1 ≠ 2 ^ 64
  | .voteRefused term reply => term < reply.term → n.MayAdopt reply.term
  | .coordinatorStepDown leaderTerm resp =>
      leaderTerm < resp.term → n.state = .leader → n.MayAdopt resp.term
  | _ => True

theorem adoptNewer_termVoteLe (term : Nat) (n : RaftNode) :
    TermVoteLe n (adoptNewer term n) := by
  rw [adoptNewer]
  split_ifs with hnew
  · exact (stepDown_termVoteLe_iff n term).mpr (Or.inl hnew)
  · exact TermVoteLe.refl n

theorem handleRequestVote_termVoteLe (clock : Clock) (args : RequestVoteArgs) (n : RaftNode) :
    TermVoteLe n (handleRequestVote clock args n).2 := by
  rcases handleRequestVote_cases clock args n with
    ⟨_, heq⟩ | ⟨hle, ⟨hcan, _, storage, -, -, -, heq⟩ | heq⟩ <;> rw [heq]
  · exact TermVoteLe.refl n
  · refine ⟨hle, fun hsame c hc => ?_⟩
    -- a vote that stands already is for the same candidate
    have hterm : args.term = n.currentTerm := hsame
    rcases hcan with hlt | hnone | hvoted
    · omega
    · rw [hnone] at hc
      cases hc
    · exact hvoted.symm.trans hc
  · exact adoptNewer_termVoteLe args.term n

theorem handleTxVoteRequest_termVoteLe (clock : Clock) (req : VoteRequest) (n : RaftNode) :
    TermVoteLe n (handleTxVoteRequest clock req n).2 := by
  rcases handleTxVoteRequest_extends clock req n with ⟨hnew, heq⟩ | ⟨c, -, hext⟩
  · rw [heq]
    exact (stepDown_termVoteLe_iff n req.term).mpr (Or.inl hnew)
  · exact TermVoteLe.of_eq hext.currentTerm hext.voteFor

theorem handleAppendEntries_termVoteLe (clock : Clock) (args : AppendEntriesArgs)
    (n : RaftNode) : TermVoteLe n (handleAppendEntries clock args n).2 := by
  rcases handleAppendEntries_follows clock args n with heq | h
  · rw [heq]
    exact TermVoteLe.refl n
  · refine ⟨h.currentTerm ▸ h.le, fun hsame c hc => ?_⟩
    rw [h.voteFor, if_neg (Nat.not_lt.mpr (h.currentTerm ▸ hsame.le))]
    exact hc

theorem handleInstallSnapshot_termVoteLe {clock : Clock} {args : InstallSnapshotArgs}
    {n : RaftNode} {r : InstallSnapshotReplyArgs × RaftNode}
    (h : handleInstallSnapshot clock args n = some r) : TermVoteLe n r.2 := by
  rcases handleInstallSnapshot_cases h with ⟨-, heq⟩ | ⟨-, sm, heq⟩ <;> rw [heq]
  · exact TermVoteLe.refl n
  · exact (adoptNewer_termVoteLe args.term n).trans (TermVoteLe.of_eq rfl rfl)

theorem maybeCommit_termVoteLe (clock : Clock) (n : RaftNode) :
    TermVoteLe n (maybeCommit clock n) := by
  obtain ⟨c, -, h⟩ := maybeCommit_extends clock n
  exact TermVoteLe.of_eq h.currentTerm h.voteFor

theorem appendReply_termVoteLe (clock : Clock) (peer : String) (args : AppendEntriesArgs)
    (reply : AppendReplyArgs) (n : RaftNode) :
    TermVoteLe n (appendReply clock peer args reply n) := by
  rw [appendReply]
  dsimp only
  split_ifs with hsuccess hnew hnext
  · refine TermVoteLe.trans ?_ (maybeCommit_termVoteLe clock _)
    exact TermVoteLe.of_eq rfl rfl
  · exact (stepDown_termVoteLe_iff n reply.term).mpr (Or.inl hnew)
  · exact TermVoteLe.of_eq rfl rfl
  · exact TermVoteLe.refl n

theorem maybeSnapshot_termVoteLe {thresholdBytes : Nat} {n : RaftNode} {r : Bool × RaftNode}
    (h : maybeSnapshot thresholdBytes n = some r) : TermVoteLe n r.2 := by
  rcases maybeSnapshot_cases h with rfl | ⟨_, data, storage, _, heq, _⟩
  · exact TermVoteLe.refl n
  · rw [heq]
    exact TermVoteLe.of_eq rfl rfl

theorem becomeLeader_termVoteLe (clock : Clock) (n : RaftNode) :
    TermVoteLe n (becomeLeader clock n) := by
  rw [becomeLeader]
  split_ifs <;> exact TermVoteLe.of_eq rfl rfl

/-- A step keeps the term and the vote exactly when its condition holds. -/
theorem step_termVoteLe_iff {n n' : RaftNode} {e : NodeEvent} (h : n.step e = some n') :
    TermVoteLe n n' ↔ n.KeepsTermAndVote e := by
  cases e with
  | becomeCandidate clock =>
    obtain rfl := Option.some.inj h
    exact promoteToCandidate_termVoteLe_iff clock n
  | preVoteAlone clock =>
    obtain rfl := Option.some.inj h
    rw [KeepsTermAndVote, preVoteAlone]
    split_ifs with hs
    · rw [← promoteToCandidate_termVoteLe_iff clock n]
      -- the promotion is followed by `become_leader`, which writes neither
      exact ⟨fun hle _ => ⟨hle.term, hle.vote⟩, fun hle => ⟨(hle hs).term, (hle hs).vote⟩⟩
    · exact iff_of_true (TermVoteLe.refl n) fun hc => absurd hc hs
  | preVoteQuorum clock =>
    obtain rfl := Option.some.inj h
    rw [KeepsTermAndVote, preVoteQuorum]
    split_ifs with hs
    · exact iff_of_true (TermVoteLe.refl n) fun hc => absurd hc hs
    · rw [promoteToCandidate_termVoteLe_iff clock n]
      exact ⟨fun hne _ => hne, fun hne => hne (not_not.mp hs)⟩
  | voteRefused term reply =>
    obtain rfl := Option.some.inj h
    rw [KeepsTermAndVote, voteRefused]
    split_ifs with hlt
    · rw [stepDown_termVoteLe_iff]
      exact ⟨fun ha _ => ha, fun ha => ha hlt⟩
    · exact iff_of_true (TermVoteLe.refl n) fun hc => absurd hc hlt
  | coordinatorStepDown leaderTerm resp =>
    obtain rfl := Option.some.inj h
    rw [KeepsTermAndVote, coordinatorStepDown]
    split_ifs with hlt hs
    · rw [stepDown_termVoteLe_iff]
      exact ⟨fun ha _ _ => ha, fun ha => ha hlt hs⟩
    · exact iff_of_true (TermVoteLe.refl n) fun _ hc => absurd hc hs
    · exact iff_of_true (TermVoteLe.refl n) fun hc => absurd hc hlt
  | propose | proposeBatch | proposeAddNode | proposeRemoveNode | proposeAbortTx =>
    exact iff_of_true (.of_extends (step_proposed h rfl).toExtends) trivial
  | requestVote clock args =>
    obtain rfl := Option.some.inj h
    exact iff_of_true (handleRequestVote_termVoteLe clock args n) trivial
  | preVote clock args =>
    obtain rfl := Option.some.inj h
    refine iff_of_true ?_ trivial
    rw [handlePreVote]
    split_ifs <;> exact TermVoteLe.of_eq rfl rfl
  | txVoteRequest clock req =>
    obtain rfl := Option.some.inj h
    exact iff_of_true (handleTxVoteRequest_termVoteLe clock req n) trivial
  | appendEntries clock args =>
    obtain rfl := Option.some.inj h
    exact iff_of_true (handleAppendEntries_termVoteLe clock args n) trivial
  | installSnapshot clock args =>
    obtain ⟨r, hr, rfl⟩ := Option.map_eq_some_iff.mp h
    exact iff_of_true (handleInstallSnapshot_termVoteLe hr) trivial
  | enterPreVote probedTerm =>
    obtain rfl := Option.some.inj h
    refine iff_of_true ?_ trivial
    rw [enterPreVote]
    split_ifs <;> exact TermVoteLe.of_eq rfl rfl
  | preVoteStale =>
    obtain rfl := Option.some.inj h
    refine iff_of_true ?_ trivial
    rw [preVoteStale]
    split_ifs <;> exact TermVoteLe.of_eq rfl rfl
  | voteQuorum clock term =>
    obtain rfl := Option.some.inj h
    refine iff_of_true ?_ trivial
    rw [voteQuorum]
    split_ifs
    · exact becomeLeader_termVoteLe clock n
    · exact TermVoteLe.refl n
  | syncAlone clock =>
    obtain rfl := Option.some.inj h
    refine iff_of_true ?_ trivial
    rw [syncAlone]
    split_ifs
    · exact maybeCommit_termVoteLe clock n
    · exact TermVoteLe.refl n
  | appendReply clock peer args reply =>
    obtain rfl := Option.some.inj h
    exact iff_of_true (appendReply_termVoteLe clock peer args reply n) trivial
  | maybeSnapshot thresholdBytes =>
    obtain ⟨r, hr, rfl⟩ := Option.map_eq_some_iff.mp h
    exact iff_of_true (maybeSnapshot_termVoteLe hr) trivial

/-! ## Runs -/

/-- A step that ends in a panic has no condition. -/
theorem keepsTermAndVote_of_step_none {n : RaftNode} {e : NodeEvent} (h : n.step e = none) :
    n.KeepsTermAndVote e := by
  cases e <;> trivial

theorem step_keeps_iff (n : RaftNode) (e : NodeEvent) :
    (∀ n', n.step e = some n' → TermVoteLe n n') ↔ n.KeepsTermAndVote e := by
  cases hstep : n.step e with
  | none => exact iff_of_true (fun _ h => by cases h) (keepsTermAndVote_of_step_none hstep)
  | some n₁ =>
    rw [← step_termVoteLe_iff hstep]
    exact ⟨fun h => h n₁ rfl, fun h n' hn' => by rwa [← Option.some.inj hn']⟩

/-- In every run, every step keeps the term and the vote exactly when every
step meets its condition; and then the term and the vote of the last state
compare with those of the first. -/
theorem termVote_monotone_iff (n : RaftNode) (es : List NodeEvent) :
    (Along step (fun n e => ∀ n', n.step e = some n' → TermVoteLe n n') n es ↔
        Along step KeepsTermAndVote n es) ∧
      (Along step KeepsTermAndVote n es →
        ∀ n', run step n es = some n' → TermVoteLe n n') := by
  refine ⟨⟨Along.mono fun n e => (step_keeps_iff n e).mp,
    Along.mono fun n e => (step_keeps_iff n e).mpr⟩, fun halong n' hrun => ?_⟩
  refine run_rel (I := fun _ => True) TermVoteLe.refl TermVoteLe.trans ?_ trivial halong hrun
  intro s s' e _ hkeeps hstep
  exact ⟨trivial, (step_termVoteLe_iff hstep).mpr hkeeps⟩

/-- Node `a` asks for votes in term 1, then votes for `b` in term 2.  A late
refusal of the first round, by a peer that is in term 2, takes the vote
back. -/
theorem late_refusal_clears_vote :
    ∃ n n', run step (freshNode "a" ["b", "c"])
          [.becomeCandidate { now := 1, unixMs := fun _ => 1 },
            .requestVote { now := 2, unixMs := fun _ => 2 }
              { term := 2, candidateId := "b", lastLogIndex := 0, lastLogTerm := 0 }] = some n ∧
      n.currentTerm = 2 ∧ n.voteFor = some "b" ∧
      n.step (.voteRefused 1 { term := 2, voteGranted := false }) = some n' ∧
      n'.currentTerm = 2 ∧ n'.voteFor = none ∧ ¬TermVoteLe n n' := by
  refine ⟨_, _, rfl, rfl, rfl, rfl, rfl, rfl, fun h => ?_⟩
  cases h.vote rfl "b" rfl

end RaftNode

end OxideKv
