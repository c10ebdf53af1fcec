import OxideKv.Raft.Merge
import OxideKv.Raft.Roles

/-!
# What a confirmed request changes

A leader keeps two records of what its peers have answered: `match_index` and
`last_quorum_heartbeat_at`.  One call writes them, the closure of `sync_logs`
that processes a reply, and it writes both when the peer has accepted the
request.  `step_confirms` says so of every call.
-/

namespace OxideKv

namespace RaftNode

/-- `maybe_snapshot` writes the files only. -/
theorem maybeSnapshot_storage {thresholdBytes : Nat} {n : RaftNode} {r : Bool × RaftNode}
    (h : maybeSnapshot thresholdBytes n = some r) :
    ∃ storage : RaftStorage, (n.storage.walFaults = [] → storage.walFaults = []) ∧
      r.2 = { n with storage := storage } := by
  have hsave : ∀ snap, (RaftStorage.saveSnapshot snap n.storage).2.walFaults =
      n.storage.walFaults := fun snap =>
    RaftStorage.saveSnapshot_keeps (fun _ _ => rfl) (fun _ _ => rfl) snap n.storage
  unfold maybeSnapshot at h
  split_ifs at h
  · obtain rfl := Option.some.inj h
    exact ⟨n.storage, id, rfl⟩
  · obtain rfl := Option.some.inj h
    exact ⟨n.storage, id, rfl⟩
  · obtain rfl := Option.some.inj h
    exact ⟨n.storage, id, rfl⟩
  · dsimp only at h
    split at h
    · cases h
    · rename_i data hdata
      have hfaults := hsave
        { lastIncludedIndex := n.commitIndex
          lastIncludedTerm := ((n.log[n.commitIndex - 1]?).map LogEntry.term).getD 0
          data := data }
      split at h
      · rename_i heq
        obtain rfl := Option.some.inj h
        rw [heq] at hfaults
        exact ⟨_, fun hf => hfaults.trans hf, rfl⟩
      · rename_i storage heq
        obtain rfl := Option.some.inj h
        rw [heq] at hfaults
        refine ⟨_, fun hf => ?_, rfl⟩
        rw [RaftStorage.rewriteWalAfterSnapshot_ok (hfaults.trans hf)]
        exact hfaults.trans hf

/-- The records of what the peers have answered are as before. -/
def SameRecords (n n' : RaftNode) : Prop :=
  n'.matchIndex = n.matchIndex ∧ n'.lastQuorumHeartbeatAt = n.lastQuorumHeartbeatAt

theorem Extends.sameRecords {n n' : RaftNode} (h : Extends n n') : SameRecords n n' :=
  ⟨h.matchIndex, h.lastQuorumHeartbeatAt⟩

theorem RoleMoved.sameRecords {n n' : RaftNode} (h : RoleMoved n n') : SameRecords n n' := by
  obtain ⟨storage, -, -, -, _, _, _, _, _, rfl⟩ := h
  exact ⟨rfl, rfl⟩

theorem maybeCommit_sameRecords (clock : Clock) (n : RaftNode) :
    SameRecords n (maybeCommit clock n) := by
  obtain ⟨c, -, h⟩ := maybeCommit_extends clock n
  exact h.sameRecords

/-- Only a confirmed request writes the records. -/
theorem step_confirms {n n' : RaftNode} {e : NodeEvent} (hstep : n.step e = some n') :
    (∃ clock peer args reply, e = .appendReply clock peer args reply ∧ reply.success = true ∧
        n'.matchIndex =
          insertIndex n.matchIndex peer (args.prevLogIndex + args.entries.length) ∧
        n'.lastQuorumHeartbeatAt = some clock.now) ∨
      (∀ clock peer args reply, e = .appendReply clock peer args reply → reply.success = false) ∧
        SameRecords n n' := by
  have hself : SameRecords n n := ⟨rfl, rfl⟩
  cases e with
  | appendReply clock peer args reply =>
    obtain rfl := Option.some.inj hstep
    unfold appendReply
    dsimp only
    cases hok : reply.success with
    | true =>
      rw [if_pos rfl]
      obtain ⟨hmatch, hquorum⟩ := maybeCommit_sameRecords clock
        { n with
          matchIndex := insertIndex n.matchIndex peer (args.prevLogIndex + args.entries.length)
          nextIndex := insertIndex n.nextIndex peer (args.prevLogIndex + args.entries.length + 1)
          lastQuorumHeartbeatAt := some clock.now }
      exact Or.inl ⟨clock, peer, args, reply, rfl, hok, hmatch, hquorum⟩
    | false =>
      refine Or.inr ⟨fun _ _ _ _ h => by cases h; exact hok, ?_⟩
      rw [if_neg (by simp)]
      split_ifs
      · exact (stepDown_roleMoved _ n).sameRecords
      · exact ⟨rfl, rfl⟩
      · exact hself
  | propose | proposeBatch | proposeAddNode | proposeRemoveNode | proposeAbortTx =>
    exact Or.inr ⟨nofun, (step_proposed hstep rfl).toExtends.sameRecords⟩
  | requestVote | preVote | becomeCandidate | enterPreVote | preVoteAlone | preVoteStale
  | preVoteQuorum | voteQuorum | voteRefused | coordinatorStepDown =>
    exact Or.inr ⟨nofun, (step_roleMoved hstep rfl).sameRecords⟩
  | txVoteRequest clock req =>
    obtain rfl := Option.some.inj hstep
    refine Or.inr ⟨nofun, ?_⟩
    rcases handleTxVoteRequest_extends clock req n with ⟨-, heq⟩ | ⟨c, -, hext⟩
    · rw [heq]
      exact (stepDown_roleMoved req.term n).sameRecords
    · exact hext.sameRecords
  | appendEntries clock args =>
    obtain rfl := Option.some.inj hstep
    refine Or.inr ⟨nofun, ?_⟩
    rcases handleAppendEntries_follows clock args n with heq | h
    · rw [heq]
      exact hself
    · exact ⟨h.matchIndex, h.lastQuorumHeartbeatAt⟩
  | installSnapshot clock args =>
    obtain ⟨r, hr, rfl⟩ := Option.map_eq_some_iff.mp hstep
    refine Or.inr ⟨nofun, ?_⟩
    rcases handleInstallSnapshot_cases hr with ⟨-, heq⟩ | ⟨-, sm, heq⟩ <;> rw [heq]
    · exact hself
    · exact (adoptNewer_roleMoved args.term n).sameRecords
  | syncAlone clock =>
    obtain rfl := Option.some.inj hstep
    refine Or.inr ⟨nofun, ?_⟩
    unfold syncAlone
    split_ifs
    · exact maybeCommit_sameRecords clock n
    · exact hself
  | maybeSnapshot thresholdBytes =>
    obtain ⟨r, hr, rfl⟩ := Option.map_eq_some_iff.mp hstep
    obtain ⟨storage, -, heq⟩ := maybeSnapshot_storage hr
    exact Or.inr ⟨nofun, by rw [heq]; exact ⟨rfl, rfl⟩⟩

end RaftNode

end OxideKv
