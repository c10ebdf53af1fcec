import OxideKv.Raft.ElectionTimer

/-!
# Rounds of probes that overlap

A call of `become_pre_candidate` counts the replies to its own probes, but the
end of `process_pre_vote_reply` looks only at the role of the node.  Between the
reply that completes the majority and the lock, and between any two replies,
the node can step down, change its term and enter another round.

`Prober` is one node with all the rounds it has begun: what each of them read,
what has become of it, and the round that made the node pre-candidate last.  A
pre-candidate stays in the term of that round (`step_waits`), so a promotion is
for the term that this round probed, whichever round has the majority.  It is for
the term of its own round as long as the two rounds have probed the same one, and
it is of its own round as long as there is one round only
(`promotion_in_probed_term_iff`).
-/

namespace OxideKv

open RaftNode Run

/-! ## A pre-candidate -/

namespace RaftNode

/-- A pre-candidate was one before, in the same term. -/
def Waits (n n' : RaftNode) : Prop :=
  n'.state = .preCandidate → n.state = .preCandidate ∧ n'.currentTerm = n.currentTerm

theorem Waits.of_same {n n' : RaftNode} (hstate : n'.state = n.state)
    (hterm : n'.currentTerm = n.currentTerm) : Waits n n' := by
  intro h
  exact ⟨hstate.symm.trans h, hterm⟩

theorem Waits.of_ne {n n' : RaftNode} (h : n'.state ≠ .preCandidate) : Waits n n' := by
  intro h'
  exact absurd h' h

theorem Waits.of_follower {n n' : RaftNode} (h : n'.state = .follower) : Waits n n' :=
  .of_ne (by simp [h])

theorem Waits.of_extends {n n' : RaftNode} (h : Extends n n') : Waits n n' :=
  .of_same h.state h.currentTerm

theorem stepDown_waits (term : Nat) (n : RaftNode) : Waits n (stepDown term n) := by
  obtain ⟨storage, -, -, -, heq⟩ := stepDown_eq term n
  rw [heq]
  exact .of_follower rfl

theorem promoteToCandidate_state (clock : Clock) (n : RaftNode) :
    (promoteToCandidate clock n).state = .candidate ∧
      (promoteToCandidate clock n).currentTerm = u64Succ n.currentTerm := by
  obtain ⟨storage, -, -, -, heq⟩ := promoteToCandidate_eq clock n
  rw [heq]
  exact ⟨rfl, rfl⟩

theorem maybeCommit_waits (clock : Clock) (n : RaftNode) : Waits n (maybeCommit clock n) := by
  obtain ⟨c, -, h⟩ := maybeCommit_extends clock n
  exact .of_same h.state h.currentTerm

theorem Elects.waits {n n' : RaftNode} {e : NodeEvent} (h : Elects n e n') : Waits n n' :=
  .of_ne (by simp [h.leader.1])

theorem handleRequestVote_waits (clock : Clock) (args : RequestVoteArgs) (n : RaftNode) :
    Waits n (handleRequestVote clock args n).2 := by
  rcases handleRequestVote_cases clock args n with
    ⟨-, heq⟩ | ⟨hle, ⟨-, -, storage, -, -, -, heq⟩ | heq⟩
  · rw [heq]
    exact .of_same rfl rfl
  · rw [heq]
    by_cases hlt : n.currentTerm < args.term
    · exact .of_follower (if_pos hlt)
    · exact .of_same (if_neg hlt) (by show args.term = n.currentTerm; omega)
  · rw [heq]
    show Waits n (adoptNewer args.term n)
    unfold adoptNewer
    split_ifs
    · exact stepDown_waits args.term n
    · exact .of_same rfl rfl

theorem handleTxVoteRequest_waits (clock : Clock) (req : VoteRequest) (n : RaftNode) :
    Waits n (handleTxVoteRequest clock req n).2 := by
  rcases handleTxVoteRequest_extends clock req n with ⟨-, heq⟩ | ⟨c, -, hext⟩
  · rw [heq]
    exact stepDown_waits req.term n
  · exact .of_same hext.state hext.currentTerm

theorem appendReply_waits (clock : Clock) (peer : String) (args : AppendEntriesArgs)
    (reply : AppendReplyArgs) (n : RaftNode) : Waits n (appendReply clock peer args reply n) := by
  unfold appendReply
  dsimp only
  split_ifs
  · exact maybeCommit_waits clock _
  · exact stepDown_waits reply.term n
  · exact .of_same rfl rfl
  · exact .of_same rfl rfl

/-- Only the write of `become_pre_candidate` makes the node a pre-candidate. -/
theorem step_waits {n n' : RaftNode} {e : NodeEvent} (he : ∀ term, e ≠ .enterPreVote term)
    (h : n.step e = some n') : Waits n n' := by
  cases e with
  | enterPreVote term => exact absurd rfl (he term)
  | propose | proposeBatch | proposeAddNode | proposeRemoveNode | proposeAbortTx =>
    exact .of_extends (step_proposed h rfl).toExtends
  | requestVote clock args =>
    obtain rfl := Option.some.inj h
    exact handleRequestVote_waits clock args n
  | preVote clock args =>
    obtain rfl := Option.some.inj h
    unfold handlePreVote
    dsimp only
    split_ifs <;> exact .of_same rfl rfl
  | txVoteRequest clock req =>
    obtain rfl := Option.some.inj h
    exact handleTxVoteRequest_waits clock req n
  | appendEntries clock args =>
    obtain rfl := Option.some.inj h
    rcases handleAppendEntries_follows clock args n with heq | hfollows
    · rw [heq]
      exact .of_same rfl rfl
    · exact .of_follower hfollows.state
  | installSnapshot clock args =>
    obtain ⟨r, hr, rfl⟩ := Option.map_eq_some_iff.mp h
    rcases handleInstallSnapshot_cases hr with ⟨-, heq⟩ | ⟨-, sm, heq⟩ <;> rw [heq]
    · exact .of_same rfl rfl
    · exact .of_follower rfl
  | becomeCandidate clock =>
    obtain rfl := Option.some.inj h
    exact .of_ne (by simp [(promoteToCandidate_state clock n).1])
  | preVoteAlone clock =>
    obtain rfl := Option.some.inj h
    rcases preVoteAlone_cases clock n with heq | helects
    · rw [heq]
      exact .of_same rfl rfl
    · exact helects.waits
  | preVoteStale =>
    obtain rfl := Option.some.inj h
    unfold preVoteStale
    split_ifs
    · exact .of_follower rfl
    · exact .of_same rfl rfl
  | preVoteQuorum clock =>
    obtain rfl := Option.some.inj h
    unfold preVoteQuorum
    split_ifs
    · exact .of_same rfl rfl
    · exact .of_ne (by simp [(promoteToCandidate_state clock n).1])
  | voteQuorum clock term =>
    obtain rfl := Option.some.inj h
    rcases voteQuorum_cases clock n term with heq | ⟨-, helects⟩
    · rw [heq]
      exact .of_same rfl rfl
    · exact helects.waits
  | voteRefused term reply =>
    obtain rfl := Option.some.inj h
    unfold voteRefused
    split_ifs
    · exact stepDown_waits reply.term n
    · exact .of_same rfl rfl
  | coordinatorStepDown leaderTerm resp =>
    obtain rfl := Option.some.inj h
    unfold coordinatorStepDown
    split_ifs
    · exact stepDown_waits resp.term n
    · exact .of_same rfl rfl
    · exact .of_same rfl rfl
  | syncAlone clock =>
    obtain rfl := Option.some.inj h
    unfold syncAlone
    split_ifs
    · exact maybeCommit_waits clock n
    · exact .of_same rfl rfl
  | appendReply clock peer args reply =>
    obtain rfl := Option.some.inj h
    exact appendReply_waits clock peer args reply n
  | maybeSnapshot thresholdBytes =>
    obtain ⟨r, hr, rfl⟩ := Option.map_eq_some_iff.mp h
    rcases maybeSnapshot_cases hr with rfl | ⟨_, data, storage, -, heq, -⟩
    · exact .of_same rfl rfl
    · rw [heq]
      exact .of_same rfl rfl

end RaftNode

/-! ## The rounds of a node -/

inductive ProbePhase where
  /-- The node was read, the write lock is still to come. -/
  | entering
  | probing
  | over
deriving Repr, DecidableEq

/-- What has become of a round: the peers that have not answered, the counter
that its tasks share, and the tasks that wait for the lock after a reply. -/
structure ProbeProgress where
  phase : ProbePhase
  waiting : List String
  votesReceived : Nat
  staleTasks : Nat
  quorumTasks : Nat
deriving Repr, DecidableEq

/-- `process_pre_vote_reply`, up to the lock. -/
def ProbeProgress.processReply (probedTerm totalNodes : Nat) (peer : String)
    (reply : VoteResponseArgs) (p : ProbeProgress) : ProbeProgress :=
  let p := { p with waiting := p.waiting.erase peer }
  if probedTerm < reply.term then { p with staleTasks := p.staleTasks + 1 }
  else if !reply.voteGranted then p
  else
    let p := { p with votesReceived := p.votesReceived + 1 }
    if p.votesReceived ≤ totalNodes / 2 then p
    else { p with quorumTasks := p.quorumTasks + 1 }

/-- A node that `process_pre_vote_reply` has made candidate: for which round, the
round it was in, and both terms of the assertion at the end. -/
structure Promotion where
  round : Nat
  enteredBy : Option Nat
  newTerm : Nat
  probedTerm : Nat
deriving Repr, DecidableEq

structure Prober where
  node : RaftNode
  /-- What each round read, in the order they began. -/
  rounds : List VoteRound
  progress : Nat → ProbeProgress
  /-- The round that made the node pre-candidate last. -/
  enteredBy : Option Nat
  promotions : List Promotion

inductive ProbeEvent where
  /-- Another task of the node. -/
  | node (e : NodeEvent)
  | begin
  | enter (k : Nat)
  | alone (k : Nat) (clock : Clock)
  | reply (k : Nat) (peer : String) (reply : VoteResponseArgs)
  | stale (k : Nat)
  | quorum (k : Nat) (clock : Clock)

/-- The calls that belong to a round. -/
def NodeEvent.isProbe : NodeEvent → Bool
  | .enterPreVote _ | .preVoteAlone _ | .preVoteStale | .preVoteQuorum _ => true
  | _ => false

namespace Prober

/-- No round has begun. -/
def start (n : RaftNode) : Prober :=
  { node := n
    rounds := []
    progress := fun _ =>
      { phase := .entering, waiting := [], votesReceived := 0, staleTasks := 0, quorumTasks := 0 }
    enteredBy := none
    promotions := [] }

def setProgress (k : Nat) (p : ProbeProgress) (s : Prober) : Prober :=
  { s with progress := Function.update s.progress k p }

/-- The write of `become_pre_candidate`, and the tasks it spawns. -/
def enter (k : Nat) (round : VoteRound) (s : Prober) : Prober :=
  let r := enterPreVote round.args.term s.node
  if r.1 then
    setProgress k { s.progress k with phase := .probing, waiting := round.peers }
      { s with node := r.2, enteredBy := some k }
  else setProgress k { s.progress k with phase := .over } s

/-- The end of `process_pre_vote_reply`. -/
def quorum (clock : Clock) (k : Nat) (round : VoteRound) (s : Prober) : Prober :=
  let r := preVoteQuorum clock s.node
  setProgress k { s.progress k with quorumTasks := (s.progress k).quorumTasks - 1 }
    { s with
      node := r.2
      promotions :=
        if r.1 then
          s.promotions ++
            [{ round := k
               enteredBy := s.enteredBy
               newTerm := r.2.currentTerm
               probedTerm := round.args.term }]
        else s.promotions }

def step (s : Prober) : ProbeEvent → Option Prober
  | .node e => if e.isProbe then none else (s.node.step e).map fun n => { s with node := n }
  | .begin => some { s with rounds := s.rounds ++ [preVoteRound s.node] }
  | .enter k =>
      (s.rounds[k]?).bind fun round =>
        if (s.progress k).phase = .entering then some (s.enter k round) else none
  | .alone k clock =>
      (s.rounds[k]?).bind fun round =>
        if (s.progress k).phase = .probing ∧ round.peers = [] then
          some (setProgress k { s.progress k with phase := .over }
            { s with node := preVoteAlone clock s.node })
        else none
  | .reply k peer reply =>
      (s.rounds[k]?).bind fun round =>
        if peer ∈ (s.progress k).waiting then
          some (s.setProgress k ((s.progress k).processReply round.args.term
            (round.peers.length + 1) peer reply))
        else none
  | .stale k =>
      if 0 < (s.progress k).staleTasks then
        some (setProgress k { s.progress k with staleTasks := (s.progress k).staleTasks - 1 }
          { s with node := preVoteStale s.node })
      else none
  | .quorum k clock =>
      (s.rounds[k]?).bind fun round =>
        if 0 < (s.progress k).quorumTasks then some (s.quorum clock k round) else none

def probedTerm (s : Prober) (k : Nat) : Option Nat := (s.rounds[k]?).map fun r => r.args.term

/-- A majority that is complete does not meet the node in another round. -/
def InOwnRound (s : Prober) : ProbeEvent → Prop
  | .quorum k _ => s.node.state = .preCandidate → s.enteredBy = some k
  | _ => True

instance (s : Prober) (e : ProbeEvent) : Decidable (s.InOwnRound e) :=
  decidable_of_iff
    ((match e with
      | .quorum k _ => decide (s.node.state = .preCandidate → s.enteredBy = some k)
      | _ => true) = true)
    (by cases e <;> simp only [InOwnRound, decide_eq_true_eq])

/-- A majority that is complete does not meet the node in a round that has probed
another term. -/
def InOwnTerm (s : Prober) : ProbeEvent → Prop
  | .quorum k _ => s.node.state = .preCandidate → s.enteredBy.bind s.probedTerm = s.probedTerm k
  | _ => True

instance (s : Prober) (e : ProbeEvent) : Decidable (s.InOwnTerm e) :=
  decidable_of_iff
    ((match e with
      | .quorum k _ =>
          decide (s.node.state = .preCandidate → s.enteredBy.bind s.probedTerm = s.probedTerm k)
      | _ => true) = true)
    (by cases e <;> simp only [InOwnTerm, decide_eq_true_eq])

theorem InOwnRound.inOwnTerm {s : Prober} {e : ProbeEvent} (h : s.InOwnRound e) :
    s.InOwnTerm e := by
  cases e with
  | quorum k clock =>
    intro hstate
    rw [h hstate]
    rfl
  | node e | begin | enter k | alone k clock | reply k peer reply | stale k => trivial

/-- What a step adds to the promotions: nothing, where there is nothing to ask for,
or one, which is what the two conditions say it is. -/
def Promotes (s : Prober) (e : ProbeEvent) (s' : Prober) : Prop :=
  (s'.promotions = s.promotions ∧ s.InOwnRound e) ∨
    ∃ p : Promotion, s'.promotions = s.promotions ++ [p] ∧
      (p.enteredBy = some p.round ↔ s.InOwnRound e) ∧
      (p.newTerm = p.probedTerm ↔ s.InOwnTerm e)

/-- A pre-candidate is in the term that the round that made it one has read. -/
def Probes (s : Prober) : Prop :=
  s.node.state = .preCandidate → ∃ k round, s.enteredBy = some k ∧
    s.rounds[k]? = some round ∧ u64Succ s.node.currentTerm = round.args.term

theorem start_probes {n : RaftNode} (h : n.state ≠ .preCandidate) : Probes (start n) := by
  intro hstate
  exact absurd hstate h

/-- A call that leaves the rounds alone. -/
theorem Probes.of_waits {s s' : Prober} (h : Probes s) (hwaits : Waits s.node s'.node)
    (hrounds : s.rounds <+: s'.rounds) (hentered : s'.enteredBy = s.enteredBy) : Probes s' := by
  intro hstate
  obtain ⟨hold, hterm⟩ := hwaits hstate
  obtain ⟨k, round, hk, hround, hprobed⟩ := h hold
  refine ⟨k, round, hentered.trans hk, ?_, ?_⟩
  · obtain ⟨rest, hrest⟩ := hrounds
    rw [← hrest, List.getElem?_append_left (List.getElem?_eq_some_iff.mp hround).1, hround]
  · rw [hterm, hprobed]

theorem Probes.enter {s : Prober} (h : Probes s) {k : Nat} {round : VoteRound}
    (hround : s.rounds[k]? = some round) :
    Probes (s.enter k round) ∧ (s.enter k round).promotions = s.promotions := by
  unfold Prober.enter enterPreVote
  by_cases hfollower : s.node.state = .follower ∧ u64Succ s.node.currentTerm = round.args.term
  · rw [if_pos hfollower]
    exact ⟨fun _ => ⟨k, round, rfl, hround, hfollower.2⟩, rfl⟩
  · rw [if_neg hfollower]
    exact ⟨h.of_waits (.of_same rfl rfl) List.prefix_rfl rfl, rfl⟩

/-- A promotion is for the term that the node's round has read, whichever
majority it is by. -/
theorem Probes.quorum {s : Prober} (h : Probes s) (clock : Clock) {k : Nat} {round : VoteRound}
    (hround : s.rounds[k]? = some round) :
    Probes (s.quorum clock k round) ∧ s.Promotes (.quorum k clock) (s.quorum clock k round) := by
  unfold Prober.quorum preVoteQuorum
  by_cases hstate : s.node.state = .preCandidate
  · rw [if_neg (not_not.mpr hstate)]
    obtain ⟨hcandidate, hterm⟩ := promoteToCandidate_state clock s.node
    obtain ⟨j, probed, hj, hprobed, hsucc⟩ := h hstate
    constructor
    · exact h.of_waits (.of_ne (by simp [setProgress, hcandidate])) List.prefix_rfl rfl
    · have hboth : s.enteredBy.bind s.probedTerm = s.probedTerm k ↔
          (promoteToCandidate clock s.node).currentTerm = round.args.term := by
        rw [hterm, hsucc, hj, Option.bind_some, probedTerm, probedTerm, hprobed, hround,
          Option.map_some, Option.map_some, Option.some.injEq]
      refine Or.inr ⟨_, rfl, ?_, ?_⟩
      · exact ⟨fun hown _ => hown, fun hown => hown hstate⟩
      · exact ⟨fun hnew _ => hboth.mpr hnew, fun hown => hboth.mp (hown hstate)⟩
  · rw [if_pos hstate]
    exact ⟨h.of_waits (.of_same rfl rfl) List.prefix_rfl rfl,
      Or.inl ⟨rfl, fun h => absurd h hstate⟩⟩

theorem Probes.step {s s' : Prober} {e : ProbeEvent} (h : Probes s) (hstep : s.step e = some s') :
    Probes s' ∧ s.Promotes e s' := by
  cases e with
  | node e =>
    simp only [Prober.step] at hstep
    split_ifs at hstep with hprobe
    obtain ⟨n, hn, rfl⟩ := Option.map_eq_some_iff.mp hstep
    have hwaits : Waits s.node n := by
      refine step_waits ?_ hn
      rintro term rfl
      exact hprobe rfl
    exact ⟨h.of_waits hwaits List.prefix_rfl rfl, Or.inl ⟨rfl, trivial⟩⟩
  | begin =>
    obtain rfl := Option.some.inj hstep
    exact ⟨h.of_waits (.of_same rfl rfl) (List.prefix_append _ _) rfl, Or.inl ⟨rfl, trivial⟩⟩
  | enter k =>
    obtain ⟨round, hround, hstep⟩ := Option.bind_eq_some_iff.mp hstep
    split_ifs at hstep
    obtain rfl := Option.some.inj hstep
    obtain ⟨hprobes, hsame⟩ := h.enter hround
    exact ⟨hprobes, Or.inl ⟨hsame, trivial⟩⟩
  | alone k clock =>
    obtain ⟨round, hround, hstep⟩ := Option.bind_eq_some_iff.mp hstep
    split_ifs at hstep
    obtain rfl := Option.some.inj hstep
    have hwaits : Waits s.node (preVoteAlone clock s.node) :=
      step_waits (e := .preVoteAlone clock) (by simp) rfl
    exact ⟨h.of_waits hwaits List.prefix_rfl rfl, Or.inl ⟨rfl, trivial⟩⟩
  | reply k peer reply =>
    obtain ⟨round, hround, hstep⟩ := Option.bind_eq_some_iff.mp hstep
    split_ifs at hstep
    obtain rfl := Option.some.inj hstep
    exact ⟨h.of_waits (.of_same rfl rfl) List.prefix_rfl rfl, Or.inl ⟨rfl, trivial⟩⟩
  | stale k =>
    simp only [Prober.step] at hstep
    split_ifs at hstep
    obtain rfl := Option.some.inj hstep
    have hwaits : Waits s.node (preVoteStale s.node) :=
      step_waits (e := .preVoteStale) (by simp) rfl
    exact ⟨h.of_waits hwaits List.prefix_rfl rfl, Or.inl ⟨rfl, trivial⟩⟩
  | quorum k clock =>
    obtain ⟨round, hround, hstep⟩ := Option.bind_eq_some_iff.mp hstep
    split_ifs at hstep
    obtain rfl := Option.some.inj hstep
    exact h.quorum clock hround

/-- What holds of every promotion of a run, when a step says of the one that it
adds. -/
theorem run_promotions_iff {n : RaftNode} {es : List ProbeEvent} {s : Prober}
    {Q : Promotion → Prop} {C : Prober → ProbeEvent → Prop}
    (hstep : ∀ {s s' : Prober} {e : ProbeEvent}, s.Promotes e s' →
      ((∀ p ∈ s'.promotions, Q p) ↔ (∀ p ∈ s.promotions, Q p) ∧ C s e))
    (hstart : n.state ≠ .preCandidate) (hrun : run step (start n) es = some s) :
    (∀ p ∈ s.promotions, Q p) ↔ Along step C (start n) es := by
  obtain ⟨-, hiff⟩ := run_keeps_iff (Q := fun s : Prober => ∀ p ∈ s.promotions, Q p)
    (fun h _ he => ⟨(h.step he).1, hstep (h.step he).2⟩) (start_probes hstart)
    (along_of_forall (P := fun _ _ => True) (fun _ _ => trivial) es (start n)) hrun
  have hnone : ∀ p ∈ (start n).promotions, Q p := by
    intro p hp
    cases hp
  exact hiff.trans (and_iff_right hnone)

/-- What holds of the promotions after a step. -/
theorem Promotes.forall_iff {s s' : Prober} {e : ProbeEvent} {Q : Promotion → Prop} {C : Prop}
    (h : s.Promotes e s') (hnone : s.InOwnRound e → C)
    (hone : ∀ p : Promotion, (p.enteredBy = some p.round ↔ s.InOwnRound e) →
      (p.newTerm = p.probedTerm ↔ s.InOwnTerm e) → (Q p ↔ C)) :
    (∀ p ∈ s'.promotions, Q p) ↔ (∀ p ∈ s.promotions, Q p) ∧ C := by
  rcases h with ⟨hsame, hown⟩ | ⟨p, hmore, hround, hterm⟩
  · rw [hsame]
    exact (and_iff_left (hnone hown)).symm
  · rw [hmore, List.forall_mem_append, List.forall_mem_singleton]
    exact and_congr_right fun _ => hone p hround hterm

/-- Every promotion of a run is of the node's own round and for the term that
it probed, if and only if no majority of one round meets the node in another: this
is the first half, and it takes the second with it.  Every promotion of a run is
for the term that was probed, if and only if no majority of one round meets the
node in one that has probed another term. -/
theorem promotion_in_probed_term_iff {n : RaftNode} {es : List ProbeEvent} {s : Prober}
    (hstart : n.state ≠ .preCandidate) (hrun : run step (start n) es = some s) :
    ((∀ p ∈ s.promotions, p.enteredBy = some p.round ∧ p.newTerm = p.probedTerm) ↔
      Along step InOwnRound (start n) es) ∧
    ((∀ p ∈ s.promotions, p.newTerm = p.probedTerm) ↔ Along step InOwnTerm (start n) es) := by
  constructor
  · refine run_promotions_iff (fun h => h.forall_iff id fun p hround hterm => ?_) hstart hrun
    rw [hround, hterm]
    exact and_iff_left_of_imp InOwnRound.inOwnTerm
  · exact run_promotions_iff
      (fun h => h.forall_iff InOwnRound.inOwnTerm fun p _ hterm => hterm) hstart hrun

def granted : VoteResponseArgs := { term := 0, voteGranted := true }

theorem promotion_in_probed_term_once :
    ∃ s, run step (start (freshNode "a" ["b", "c"]))
        [.begin, .enter 0, .reply 0 "b" granted, .reply 0 "c" granted, .quorum 0 someClock] =
          some s ∧
      s.promotions = [{ round := 0, enteredBy := some 0, newTerm := 1, probedTerm := 1 }] ∧
      ∀ p ∈ s.promotions, p.enteredBy = some p.round ∧ p.newTerm = p.probedTerm := by
  obtain ⟨s, hrun, hpromotions⟩ : ∃ s, run step (start (freshNode "a" ["b", "c"]))
        [.begin, .enter 0, .reply 0 "b" granted, .reply 0 "c" granted, .quorum 0 someClock] =
          some s ∧
      s.promotions = [{ round := 0, enteredBy := some 0, newTerm := 1, probedTerm := 1 }] :=
    exists_run_of_any (by decide +kernel)
  exact ⟨s, hrun, hpromotions,
    (promotion_in_probed_term_iff (by decide) hrun).1.mpr (by decide +kernel)⟩

/-- The node probes for term 1 twice, and it is promoted by the first round while it
is in the second. -/
example :
    let es : List ProbeEvent :=
      [.begin, .enter 0, .reply 0 "b" granted, .reply 0 "c" granted,
        .reply 0 "d" { term := 5, voteGranted := false }, .stale 0, .begin, .enter 1,
        .reply 0 "e" granted, .quorum 0 someClock]
    (run step (start (freshNode "a" ["b", "c", "d", "e"])) es).map promotions =
        some [{ round := 0, enteredBy := some 1, newTerm := 1, probedTerm := 1 }] ∧
      Along step InOwnTerm (start (freshNode "a" ["b", "c", "d", "e"])) es := by
  decide +kernel

/-- A leader of term 5 comes and goes between the two replies to the first
round. -/
theorem late_majority_promotes_other_round :
    ∃ s, run step (start (freshNode "a" ["b", "c"]))
        [.begin, .enter 0, .reply 0 "b" granted,
          .node (.appendEntries someClock
            { term := 5, leaderId := "b", prevLogIndex := 0, prevLogTerm := 0, entries := [],
              leaderCommit := 0 }),
          .begin, .enter 1, .reply 0 "c" granted, .quorum 0 someClock] = some s ∧
      s.promotions = [{ round := 0, enteredBy := some 1, newTerm := 6, probedTerm := 1 }] :=
  exists_run_of_any (by decide +kernel)

end Prober

end OxideKv
