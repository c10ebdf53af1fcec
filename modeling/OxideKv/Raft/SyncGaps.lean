import OxideKv.Raft.Tasks
import OxideKv.Raft.OwnEntry

/-!
# The gaps of `sync_logs`

`sync_logs` reads the length of the log once and takes a slice of it for each
peer under a later lock.  `SyncCall` is one such call with everything that can
happen to its node before, between and after its locks.

`next_index` is at least 1 in every state (`step_nextPos`), so the index before
it does not underflow.  The slice is another matter: the guard compares
`next_index` with the length that was read first, so the call panics when it
gets to a peer after the log was cut below the entry that the peer is to get
next.  It does not when other tasks leave the counted entries in place
(`sync_logs_in_bounds`).
-/

namespace OxideKv

open RaftNode Run

namespace RaftNode

/-! ## `next_index` -/

def NextPos (n : RaftNode) : Prop := ∀ peer, 1 ≤ (n.nextIndex peer).getD 1

variable {n n' : RaftNode}

theorem NextPos.of_eq (h : NextPos n) (hnext : n'.nextIndex = n.nextIndex) : NextPos n' := by
  unfold NextPos
  rw [hnext]
  exact h

theorem NextPos.of_none (h : n.nextIndex = fun _ => none) : NextPos n := by
  intro peer
  rw [h]
  exact le_rfl

theorem NextPos.of_extends (h : NextPos n) (hext : Extends n n') : NextPos n' :=
  h.of_eq hext.nextIndex

theorem stepDown_nextIndex (term : Nat) (n : RaftNode) :
    (stepDown term n).nextIndex = n.nextIndex := by
  obtain ⟨storage, -, -, -, heq⟩ := stepDown_eq term n
  rw [heq]

theorem promoteToCandidate_nextIndex (clock : Clock) (n : RaftNode) :
    (promoteToCandidate clock n).nextIndex = n.nextIndex := by
  obtain ⟨storage, -, -, -, heq⟩ := promoteToCandidate_eq clock n
  rw [heq]

theorem maybeCommit_nextIndex (clock : Clock) (n : RaftNode) :
    (maybeCommit clock n).nextIndex = n.nextIndex := by
  obtain ⟨c, -, h⟩ := maybeCommit_extends clock n
  exact h.nextIndex

theorem applyLogs_forward_nextIndex (clock : Clock) (index : Nat) (n : RaftNode) :
    (applyLogs clock (fastForwardCommit index n)).nextIndex = n.nextIndex := by
  rw [(applyLogs_extends clock _).nextIndex]
  rcases fastForwardCommit_eq index n with heq | ⟨-, -, heq⟩ <;> rw [heq]

theorem handleRequestVote_nextIndex (clock : Clock) (args : RequestVoteArgs) (n : RaftNode) :
    (handleRequestVote clock args n).2.nextIndex = n.nextIndex := by
  rcases handleRequestVote_cases clock args n with
    ⟨-, heq⟩ | ⟨hle, ⟨-, -, storage, -, -, -, heq⟩ | heq⟩ <;> rw [heq]
  obtain ⟨storage, -, -, -, hadopt⟩ := adoptNewer_eq hle
  rw [hadopt]

theorem handleTxVoteRequest_nextIndex (clock : Clock) (req : VoteRequest) (n : RaftNode) :
    (handleTxVoteRequest clock req n).2.nextIndex = n.nextIndex := by
  rcases handleTxVoteRequest_cases clock req n with heq | ⟨-, heq⟩ | ⟨-, -, heq | heq⟩ <;> rw [heq]
  · exact stepDown_nextIndex req.term n
  · exact applyLogs_forward_nextIndex clock req.lastLogIndex n
  · exact applyLogs_forward_nextIndex clock req.lastLogIndex n

theorem handleAppendEntries_nextIndex (clock : Clock) (args : AppendEntriesArgs) (n : RaftNode) :
    (handleAppendEntries clock args n).2.nextIndex = n.nextIndex := by
  rcases handleAppendEntries_cases clock args n with ⟨-, heq⟩ | ⟨⟨hle, -⟩, hcases⟩
  · rw [heq]
  · obtain ⟨storage, -, -, -, hfollow⟩ := followLeader_eq clock hle
    rcases hcases with ⟨-, heq⟩ | ⟨-, heq⟩ <;> rw [heq]
    · rw [hfollow]
    · obtain ⟨storage', -, -, hmerge⟩ :=
        foldl_mergeEntry_eq args.entries (followLeader clock args.term n)
      rw [(followCommit_extends clock args.leaderCommit _).nextIndex, hmerge, hfollow]

theorem handleInstallSnapshot_nextIndex {clock : Clock} {args : InstallSnapshotArgs}
    {r : InstallSnapshotReplyArgs × RaftNode} (h : handleInstallSnapshot clock args n = some r) :
    r.2.nextIndex = n.nextIndex := by
  rcases handleInstallSnapshot_cases h with ⟨-, heq⟩ | ⟨⟨hle, -⟩, sm, heq⟩ <;> rw [heq]
  obtain ⟨storage, -, -, -, hadopt⟩ := adoptNewer_eq hle
  rw [hadopt]

/-- `become_leader` points every peer behind the end of the log. -/
theorem Elects.nextPos {e : NodeEvent} (h : Elects n e n') : NextPos n' := by
  have hleader : ∀ (clock : Clock) (m : RaftNode), m.state ≠ .leader →
      NextPos (becomeLeader clock m) := by
    intro clock m hstate peer
    rw [becomeLeader_eq clock m hstate]
    dsimp only
    split_ifs
    · exact Nat.le_add_left 1 _
    · exact le_rfl
  cases h with
  | quorum clock hstate => exact hleader clock n (by simp [hstate])
  | alone clock hstate =>
    apply hleader clock
    obtain ⟨storage, -, -, -, heq⟩ := promoteToCandidate_eq clock n
    simp [heq]

theorem NextPos.insert (h : NextPos n) {peer : String} {index : Nat} (hindex : 1 ≤ index)
    (hnext : n'.nextIndex = insertIndex n.nextIndex peer index) : NextPos n' := by
  intro p
  rw [hnext]
  unfold insertIndex
  split_ifs
  · exact hindex
  · exact h p

/-- A refusal takes one off, but not off 1. -/
theorem NextPos.appendReply (h : NextPos n) (clock : Clock) (peer : String)
    (args : AppendEntriesArgs) (reply : AppendReplyArgs) :
    NextPos (appendReply clock peer args reply n) := by
  unfold RaftNode.appendReply
  dsimp only
  split_ifs with hsuccess hterm hgt
  · exact h.insert (Nat.le_add_left 1 _) (maybeCommit_nextIndex clock _)
  · exact h.of_eq (stepDown_nextIndex reply.term n)
  · exact h.insert (by omega) rfl
  · exact h

theorem step_nextPos {e : NodeEvent} (hpos : NextPos n) (h : n.step e = some n') :
    NextPos n' := by
  cases e with
  | propose | proposeBatch | proposeAddNode | proposeRemoveNode | proposeAbortTx =>
    exact hpos.of_extends (step_proposed h rfl).toExtends
  | requestVote clock args =>
    obtain rfl := Option.some.inj h
    exact hpos.of_eq (handleRequestVote_nextIndex clock args n)
  | preVote clock args =>
    obtain rfl := Option.some.inj h
    unfold handlePreVote
    dsimp only
    split_ifs <;> exact hpos
  | txVoteRequest clock req =>
    obtain rfl := Option.some.inj h
    exact hpos.of_eq (handleTxVoteRequest_nextIndex clock req n)
  | appendEntries clock args =>
    obtain rfl := Option.some.inj h
    exact hpos.of_eq (handleAppendEntries_nextIndex clock args n)
  | installSnapshot clock args =>
    obtain ⟨r, hr, rfl⟩ := Option.map_eq_some_iff.mp h
    exact hpos.of_eq (handleInstallSnapshot_nextIndex hr)
  | becomeCandidate clock =>
    obtain rfl := Option.some.inj h
    exact hpos.of_eq (promoteToCandidate_nextIndex clock n)
  | enterPreVote probedTerm =>
    obtain rfl := Option.some.inj h
    unfold enterPreVote
    split_ifs <;> exact hpos
  | preVoteAlone clock =>
    obtain rfl := Option.some.inj h
    rcases preVoteAlone_cases clock n with heq | helects
    · rw [heq]
      exact hpos
    · exact helects.nextPos
  | preVoteStale =>
    obtain rfl := Option.some.inj h
    unfold preVoteStale
    split_ifs <;> exact hpos
  | preVoteQuorum clock =>
    obtain rfl := Option.some.inj h
    unfold preVoteQuorum
    split_ifs
    · exact hpos
    · exact hpos.of_eq (promoteToCandidate_nextIndex clock n)
  | voteQuorum clock term =>
    obtain rfl := Option.some.inj h
    rcases voteQuorum_cases clock n term with heq | ⟨-, helects⟩
    · rw [heq]
      exact hpos
    · exact helects.nextPos
  | voteRefused term reply =>
    obtain rfl := Option.some.inj h
    unfold voteRefused
    split_ifs
    · exact hpos.of_eq (stepDown_nextIndex reply.term n)
    · exact hpos
  | coordinatorStepDown leaderTerm resp =>
    obtain rfl := Option.some.inj h
    unfold coordinatorStepDown
    split_ifs
    · exact hpos.of_eq (stepDown_nextIndex resp.term n)
    · exact hpos
    · exact hpos
  | syncAlone clock =>
    obtain rfl := Option.some.inj h
    unfold syncAlone
    split_ifs
    · exact hpos.of_eq (maybeCommit_nextIndex clock n)
    · exact hpos
  | appendReply clock peer args reply =>
    obtain rfl := Option.some.inj h
    exact hpos.appendReply clock peer args reply
  | maybeSnapshot thresholdBytes =>
    obtain ⟨r, hr, rfl⟩ := Option.map_eq_some_iff.mp h
    rcases maybeSnapshot_cases hr with rfl | ⟨_, data, storage, -, heq, -⟩
    · exact hpos
    · exact hpos.of_eq (by rw [heq])

end RaftNode

/-! ## One call of `sync_logs` -/

/-- The slice of the log that `sync_logs` takes for a peer panics. -/
def Call.panics (n : RaftNode) : Call → Bool
  | .syncPeers round (peer :: _) => (n.syncPeer round peer).isNone
  | _ => false

/-- The log reaches to `next_index`, or `next_index` is past the length that
the call read. -/
def Call.inBounds (n : RaftNode) : Call → Bool
  | .syncPeers round (peer :: _) =>
      round.logLen < (n.nextIndex peer).getD 1 || (n.nextIndex peer).getD 1 ≤ n.log.length + 1
  | _ => true

theorem Call.panics_eq_false_iff {n : RaftNode} (hpos : NextPos n) (c : Call) :
    c.panics n = false ↔ c.inBounds n = true := by
  cases c with
  | syncPeers round peers =>
    cases peers with
    | nil => exact iff_of_true rfl rfl
    | cons peer rest =>
      have hnext := hpos peer
      simp only [panics, inBounds, syncPeer, Bool.or_eq_true, decide_eq_true_eq]
      obtain ⟨prev, hprev⟩ : ∃ prev, (n.nextIndex peer).getD 1 = prev + 1 :=
        ⟨(n.nextIndex peer).getD 1 - 1, by omega⟩
      rw [hprev, usizePred_succ]
      by_cases hlen : prev + 1 ≤ round.logLen
      · rw [if_pos hlen]
        by_cases hslice : prev ≤ n.log.length
        · rw [if_pos hslice]
          exact iff_of_true rfl (by omega)
        · rw [if_neg hslice]
          exact iff_of_false (by simp) (by omega)
      · rw [if_neg hlen]
        exact iff_of_true rfl (by omega)
  | _ => exact iff_of_true rfl rfl

structure SyncCall where
  node : RaftNode
  /-- What is left of the call, waiting for the lock. -/
  left : Option Call
  panicked : Bool

inductive SyncEvent where
  /-- Another task of the node gets the lock. -/
  | node (e : NodeEvent)
  | resume (clock : Clock)

namespace SyncCall

def start (n : RaftNode) : SyncCall := { node := n, left := some .syncLogs, panicked := false }

def step (s : SyncCall) : SyncEvent → Option SyncCall
  | .node e => (s.node.step e).map fun n => { s with node := n }
  | .resume clock => s.left.map fun c =>
      { node := (c.resume clock s.node).node
        left := (c.resume clock s.node).next.head?
        panicked := s.panicked || c.panics s.node }

def inBounds (s : SyncCall) : SyncEvent → Bool
  | .node _ => true
  | .resume _ => s.left.all fun c => c.inBounds s.node

theorem step_panicked {s s' : SyncCall} {e : SyncEvent} (hpos : NextPos s.node)
    (h : s.step e = some s') : NextPos s'.node ∧
      (s'.panicked = false ↔ s.panicked = false ∧ s.inBounds e = true) := by
  cases e with
  | node e =>
    obtain ⟨n, hn, rfl⟩ := Option.map_eq_some_iff.mp h
    exact ⟨step_nextPos hpos hn, by simp [inBounds]⟩
  | resume clock =>
    obtain ⟨c, hc, rfl⟩ := Option.map_eq_some_iff.mp h
    constructor
    · rcases c.resume_node clock s.node with ⟨-, heq⟩ | ⟨e, -, he⟩
      · show NextPos (c.resume clock s.node).node
        rw [heq]
        exact hpos
      · exact step_nextPos hpos he
    · rw [Bool.or_eq_false_iff, Call.panics_eq_false_iff hpos, inBounds, hc, Option.all_some]

/-- The length of the log that the call has read, while a peer is left. -/
def logLen (s : SyncCall) : Option Nat :=
  match s.left with
  | some (.syncPeers round (_ :: _)) => some round.logLen
  | _ => none

/-- Other tasks leave the entries in place that the call has counted. -/
def KeepsCounted (s : SyncCall) : SyncEvent → Prop
  | .node e => ∀ count ∈ s.logLen, s.node.KeepsFirst count e
  | .resume _ => True

instance (s : SyncCall) : (e : SyncEvent) → Decidable (s.KeepsCounted e)
  | .node e => inferInstanceAs (Decidable (∀ count ∈ s.logLen, s.node.KeepsFirst count e))
  | .resume _ => .isTrue trivial

/-- What is left belongs to `sync_logs`, and while a peer is left the log has
the entries that the call has counted. -/
def Counted (s : SyncCall) : Prop :=
  ∀ c, s.left = some c →
    match c with
    | .syncLogs | .syncAlone | .syncPeers _ [] => True
    | .syncPeers round (_ :: _) => round.logLen ≤ s.node.log.length
    | _ => False

theorem Counted.step {s s' : SyncCall} {e : SyncEvent} (h : Counted s) (hkeeps : s.KeepsCounted e)
    (hstep : s.step e = some s') : Counted s' := by
  cases e with
  | node e =>
    obtain ⟨n, hn, rfl⟩ := Option.map_eq_some_iff.mp hstep
    intro c hc
    have hcounted := h c hc
    cases c with
    | syncPeers round peers =>
      cases peers with
      | nil => trivial
      | cons peer rest =>
        have htake := (step_take hcounted (hkeeps _ (by rw [logLen, hc]; rfl)) hn).length_le
        rw [List.length_take, Nat.min_eq_left hcounted] at htake
        exact htake
    | _ => exact hcounted
  | resume clock =>
    obtain ⟨c, hc, rfl⟩ := Option.map_eq_some_iff.mp hstep
    have hcounted := h c hc
    intro d hd
    dsimp only at hd ⊢
    cases c with
    | syncLogs =>
      by_cases hpeers : s.node.syncRound.peers.isEmpty
      · simp only [Call.resume, hpeers, if_true, List.head?_cons, Option.some.injEq] at hd
        subst hd
        trivial
      · simp only [Call.resume, hpeers, Bool.false_eq_true, if_false, List.head?_cons,
          Option.some.injEq] at hd
        subst hd
        cases s.node.syncRound.peers with
        | nil => trivial
        | cons peer rest => exact le_refl s.node.log.length
    | syncAlone => cases hd
    | syncPeers round rest =>
      cases rest with
      | nil => cases hd
      | cons peer rest =>
        simp only [Call.resume] at hd ⊢
        cases hsent : s.node.syncPeer round peer with
        | none =>
          rw [hsent] at hd
          cases hd
        | some args =>
          rw [hsent] at hd
          obtain rfl := Option.some.inj hd
          cases rest with
          | nil => trivial
          | cons next rest => exact hcounted
    | _ => exact absurd hcounted id

/-- Without a task that removes one of the entries that the call has counted,
every slice is in bounds. -/
theorem inBounds_of_keepsCounted {n : RaftNode} {es : List SyncEvent}
    (hkeeps : Along step KeepsCounted (start n) es) :
    Along step (fun s e => s.inBounds e = true) (start n) es := by
  have hstart : Counted (start n) := by
    intro c hc
    obtain rfl := Option.some.inj hc
    trivial
  refine Along.of_invariant (fun h hkeeps hstep => Counted.step h hkeeps hstep) ?_ hstart hkeeps
  intro s e h _
  cases e with
  | node e => rfl
  | resume clock =>
    rw [inBounds, Option.all_eq_true]
    intro c hc
    have hcounted := h c hc
    cases c with
    | syncPeers round rest =>
      cases rest with
      | nil => rfl
      | cons peer rest =>
        simp only [Call.inBounds, Bool.or_eq_true, decide_eq_true_eq]
        dsimp only at hcounted
        omega
    | _ => rfl

/-- In every state `next_index` is positive for every peer, and the call has
not panicked when other tasks have left the entries in place that it has
counted. -/
theorem sync_logs_in_bounds {n : RaftNode} {es : List SyncEvent} {s : SyncCall}
    (hstart : n.nextIndex = fun _ => none) (hrun : run step (start n) es = some s) :
    (∀ peer, 1 ≤ (s.node.nextIndex peer).getD 1) ∧
      (Along step KeepsCounted (start n) es → s.panicked = false) := by
  obtain ⟨hpos, hiff⟩ := run_keeps_iff (fun h _ hstep => step_panicked h hstep)
    (show NextPos (start n).node from .of_none hstart)
    (along_of_forall (P := fun _ _ => True) (fun _ _ => trivial) es (start n)) hrun
  exact ⟨hpos, fun hkeeps => hiff.mpr ⟨rfl, inBounds_of_keepsCounted hkeeps⟩⟩

/-- Two entries of a leader of term 1, by which the node becomes the leader of
term 2 with three entries. -/
def leads : List SyncEvent :=
  [.node (.appendEntries someClock
      { term := 1, leaderId := "b", prevLogIndex := 0, prevLogTerm := 0,
        entries :=
          [{ term := 1, index := 1, command := .set "x" "1" },
            { term := 1, index := 2, command := .set "x" "2" }],
        leaderCommit := 0 }),
    .node (.becomeCandidate someClock),
    .node (.voteQuorum someClock 2),
    .node (.propose (.set "y" "1"))]

/-- Between the locks for `b` and `c` the leader gets a request of an old term
and another proposal. -/
def betweenLocks : List SyncEvent :=
  [.resume someClock, .resume someClock,
    .node (.appendEntries someClock
      { term := 1, leaderId := "b", prevLogIndex := 0, prevLogTerm := 0,
        entries := [{ term := 1, index := 1, command := .set "z" "1" }],
        leaderCommit := 0 }),
    .node (.propose (.set "y" "2")),
    .resume someClock]

theorem sync_logs_in_bounds_leader :
    ∃ s, run step (start (freshNode "a" ["b", "c"])) (leads ++ betweenLocks) = some s ∧
      s.panicked = false ∧ s.node.log.length = 4 ∧
      ∀ peer, 1 ≤ (s.node.nextIndex peer).getD 1 := by
  obtain ⟨s, hrun, hlen⟩ : ∃ s, run step (start (freshNode "a" ["b", "c"]))
      (leads ++ betweenLocks) = some s ∧ s.node.log.length = 4 :=
    exists_run_of_any (by decide +kernel)
  obtain ⟨hpos, hbounds⟩ := sync_logs_in_bounds rfl hrun
  exact ⟨s, hrun, hbounds (by decide +kernel), hlen, hpos⟩

/-- A leader of term 3 cuts the log to one entry while the call waits. -/
theorem sync_logs_panics_after_cut :
    ∃ s, run step (start (freshNode "a" ["b", "c"]))
        (leads ++
          [.resume someClock,
            .node (.appendEntries someClock
              { term := 3, leaderId := "b", prevLogIndex := 0, prevLogTerm := 0,
                entries := [{ term := 3, index := 1, command := .set "z" "1" }],
                leaderCommit := 0 }),
            .resume someClock]) = some s ∧
      s.panicked = true ∧ s.node.nextIndex "b" = some 3 ∧ s.node.log.length = 1 :=
  exists_run_of_any (by decide +kernel)

end SyncCall

end OxideKv
