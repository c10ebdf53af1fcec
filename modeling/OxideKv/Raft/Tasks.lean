import OxideKv.Raft.Frame

/-!
# Calls that let go of the lock

`become_candidate`, `become_pre_candidate`, `request_votes` and `sync_logs`
take the lock of the node several times.  `Call` is what is left of such a
call while it waits for the lock, and `Call.resume` what it does when it gets
it: any other task of the node can run in between.

A task that is spawned for a peer waits for the reply in the same way; the
vote counter it shares with the tasks of its round is outside the lock, so the
call that a counted majority leads to waits for the lock once more.
-/

namespace OxideKv

open RaftNode

/-- The rest of a call, waiting for the lock of its node. -/
inductive Call where
  /-- `request_votes`, before it reads the node. -/
  | requestVotes
  /-- A majority of the votes of the round of `term` is counted. -/
  | voteQuorum (term : Nat)
  /-- `become_pre_candidate` after its read. -/
  | enterPreVote (round : VoteRound)
  /-- `become_pre_candidate` of a node without peers, before it is promoted. -/
  | preVoteAlone
  /-- A majority of the probes is granted. -/
  | preVoteQuorum
  /-- `sync_logs`, before it reads the node. -/
  | syncLogs
  /-- `sync_logs` of a node without peers, before it commits. -/
  | syncAlone
  /-- The loop of `sync_logs` before the peers `rest`. -/
  | syncPeers (round : SyncRound) (rest : List String)
deriving DecidableEq

/-- What a call does with the lock: the node it leaves, how it goes on, the
round of votes or of probes it starts and the `AppendEntries` it sends. -/
structure Outcome where
  node : RaftNode
  next : List Call := []
  poll : Option VoteRound := none
  probe : Option VoteRound := none
  sent : List (String × AppendEntriesArgs) := []

def Call.resume (clock : Clock) (n : RaftNode) : Call → Outcome
  | .requestVotes =>
      { node := n
        poll := some n.voteRound
        next := if n.voteRound.totalNodes = 1 then [.voteQuorum n.voteRound.args.term] else [] }
  | .voteQuorum term => { node := n.voteQuorum clock term }
  | .enterPreVote round =>
      match n.enterPreVote round.args.term with
      | (false, n') => { node := n' }
      | (true, n') =>
          if round.totalNodes = 1 then { node := n', next := [.preVoteAlone] }
          else { node := n', probe := some round }
  | .preVoteAlone => { node := n.preVoteAlone clock }
  | .preVoteQuorum =>
      match n.preVoteQuorum clock with
      | (false, n') => { node := n' }
      | (true, n') => { node := n', next := [.requestVotes] }
  | .syncLogs =>
      { node := n
        next := if n.syncRound.peers.isEmpty then [.syncAlone]
          else [.syncPeers n.syncRound n.syncRound.peers] }
  | .syncAlone => { node := n.syncAlone clock }
  | .syncPeers _ [] => { node := n }
  | .syncPeers round (peer :: rest) =>
      match n.syncPeer round peer with
      -- the slice panics and takes the call down, not the node
      | none => { node := n }
      | some args => { node := n, next := [.syncPeers round rest], sent := [(peer, args)] }

/-- What `sync_logs` sends to a peer. -/
theorem syncPeer_cases {n : RaftNode} {round : SyncRound} {peer : String}
    {args : AppendEntriesArgs} (h : n.syncPeer round peer = some args) :
    args.term = round.currentTerm ∧ args.leaderId = round.nodeId ∧
      args.leaderCommit = round.commitIndex ∧
      args.prevLogIndex = usizePred ((n.nextIndex peer).getD 1) ∧
      (args.prevLogIndex = 0 ∨
        args.prevLogTerm = ((n.log[args.prevLogIndex - 1]?).map LogEntry.term).getD 0) ∧
      ((n.nextIndex peer).getD 1 ≤ round.logLen ∧ args.prevLogIndex ≤ n.log.length ∧
          args.entries = n.log.drop args.prevLogIndex ∨
        round.logLen < (n.nextIndex peer).getD 1 ∧ args.entries = []) := by
  have hprev : ∀ i : Nat, i = 0 ∨ (if i = 0 then 0 else
      ((n.log[i - 1]?).map LogEntry.term).getD 0) =
        ((n.log[i - 1]?).map LogEntry.term).getD 0 := by
    intro i
    by_cases hi : i = 0
    · exact Or.inl hi
    · exact Or.inr (if_neg hi)
  unfold syncPeer at h
  dsimp only at h
  by_cases hnext : (n.nextIndex peer).getD 1 ≤ round.logLen
  · rw [if_pos hnext] at h
    by_cases hslice : usizePred ((n.nextIndex peer).getD 1) ≤ n.log.length
    · rw [if_pos hslice] at h
      obtain rfl := Option.some.inj h
      exact ⟨rfl, rfl, rfl, rfl, hprev _, Or.inl ⟨hnext, hslice, rfl⟩⟩
    · rw [if_neg hslice] at h
      cases h
  · rw [if_neg hnext] at h
    obtain rfl := Option.some.inj h
    exact ⟨rfl, rfl, rfl, rfl, hprev _, Or.inr ⟨Nat.lt_of_not_le hnext, rfl⟩⟩

/-- The call of the node that runs while `Call.resume` holds the lock. -/
def Call.nodeEvent (clock : Clock) : Call → Option NodeEvent
  | .voteQuorum term => some (.voteQuorum clock term)
  | .enterPreVote round => some (.enterPreVote round.args.term)
  | .preVoteAlone => some (.preVoteAlone clock)
  | .preVoteQuorum => some (.preVoteQuorum clock)
  | .syncAlone => some (.syncAlone clock)
  | _ => none

/-- A call changes the node as that event does, or not at all. -/
theorem Call.resume_node (clock : Clock) (n : RaftNode) (c : Call) :
    (c.nodeEvent clock = none ∧ (c.resume clock n).node = n) ∨
      ∃ e, c.nodeEvent clock = some e ∧ n.step e = some (c.resume clock n).node := by
  cases c with
  | enterPreVote round =>
    refine Or.inr ⟨_, rfl, ?_⟩
    show some (n.enterPreVote round.args.term).2 = _
    simp only [resume]
    rcases n.enterPreVote round.args.term with ⟨ok, n'⟩
    cases ok with
    | false => rfl
    | true =>
      dsimp only
      split_ifs <;> rfl
  | preVoteQuorum =>
    refine Or.inr ⟨_, rfl, ?_⟩
    show some (n.preVoteQuorum clock).2 = _
    simp only [resume]
    rcases n.preVoteQuorum clock with ⟨ok, n'⟩
    cases ok <;> rfl
  | syncPeers round rest =>
    refine Or.inl ⟨rfl, ?_⟩
    cases rest with
    | nil => rfl
    | cons peer rest =>
      simp only [resume]
      cases n.syncPeer round peer <;> rfl
  | requestVotes | syncLogs => exact Or.inl ⟨rfl, rfl⟩
  | voteQuorum | preVoteAlone | syncAlone => exact Or.inr ⟨_, rfl, rfl⟩

end OxideKv
