import OxideKv.Raft.Frame

/-!
# The term and the vote on disk

Eight places of `node.rs` and one of `coordinator.rs` write the term or the
vote of a node, and each of them calls `save_meta` after its last write.
`MetaSaved` says that the file holds what the node has in memory.  A call that
writes neither keeps it (`MetaSaved.of_same`), and one that writes them ends in
`saveMeta`, which restores it whatever it was (`saveMeta_saved`).

The file operations of `save_meta` and those of `save_snapshot` take their
outcomes off one list.  `withMetaOutcomes` is a call in which every `save_meta`
succeeds and `save_snapshot` may fail; the log file and the store may fail as
they like.
-/

namespace OxideKv

open Run

namespace RaftNode

/-- The file holds the term and the vote of the node. -/
def MetaSaved (n : RaftNode) : Prop := n.storage.readMeta = (n.currentTerm, n.voteFor)

/-- The node as the call `e` finds it when every `save_meta` of the call
succeeds.  `snapshotFaults` are the outcomes of its `save_snapshot`. -/
def withMetaOutcomes (snapshotFaults : List Bool) (e : NodeEvent) (n : RaftNode) : RaftNode :=
  { n with
    storage :=
      { n.storage with
        metaFaults :=
          match e with
          | .installSnapshot _ args =>
              if n.currentTerm < args.term then false :: false :: snapshotFaults
              else snapshotFaults
          | .maybeSnapshot _ => snapshotFaults
          | _ => [] } }

/-- A call in which every `save_meta` succeeds, or a crash and the start that
follows it. -/
def savingStep (n : RaftNode) (e : LifeEvent × List Bool) : Option RaftNode :=
  match e.1 with
  | .call call => (withMetaOutcomes e.2 call n).step call
  | .restart peers clock => restart n.nodeId peers clock n

section Saved

variable {n n' : RaftNode}

theorem MetaSaved.of_same (h : MetaSaved n) (hterm : n'.currentTerm = n.currentTerm)
    (hvote : n'.voteFor = n.voteFor) (hmeta : n'.storage.metaFile = n.storage.metaFile) :
    MetaSaved n' := by
  unfold MetaSaved RaftStorage.readMeta at h ⊢
  rw [hterm, hvote, hmeta]
  exact h

theorem MetaSaved.of_extends (h : MetaSaved n) (hext : Extends n n') : MetaSaved n' :=
  h.of_same hext.currentTerm hext.voteFor hext.metaFile

/-- The two file operations of `save_meta` succeed. -/
def SavesMeta (n : RaftNode) : Prop :=
  n.storage.metaFaults = [] ∨ ∃ rest, n.storage.metaFaults = false :: false :: rest

theorem saveMeta_saved (h : SavesMeta n) : MetaSaved (saveMeta n) := by
  unfold MetaSaved saveMeta
  rcases n with ⟨_, _, _, ⟨_, _, _, _, faults⟩, _⟩
  rcases h with rfl | ⟨rest, rfl⟩ <;> rfl

/-- Without failures to come there are none later either. -/
theorem saveMeta_metaFaults (h : n.storage.metaFaults = []) :
    (saveMeta n).storage.metaFaults = [] := by
  unfold saveMeta
  rcases n with ⟨_, _, _, ⟨_, _, _, _, faults⟩, _⟩
  obtain rfl := h
  rfl

theorem stepDown_saved (term : Nat) (h : SavesMeta n) : MetaSaved (stepDown term n) :=
  saveMeta_saved h

theorem adoptNewer_saved {term : Nat} (h : MetaSaved n)
    (hsaves : n.currentTerm < term → SavesMeta n) : MetaSaved (adoptNewer term n) := by
  unfold adoptNewer
  split_ifs with hlt
  · exact stepDown_saved term (hsaves hlt)
  · exact h

theorem adoptNewer_metaFaults {term : Nat} (h : n.storage.metaFaults = []) :
    (adoptNewer term n).storage.metaFaults = [] := by
  unfold adoptNewer
  split_ifs
  · exact saveMeta_metaFaults h
  · exact h

/-! ## The calls that write the term or the vote -/

theorem handleRequestVote_saved (clock : Clock) (args : RequestVoteArgs) (h : MetaSaved n)
    (hf : n.storage.metaFaults = []) : MetaSaved (handleRequestVote clock args n).2 := by
  unfold handleRequestVote
  dsimp only
  split_ifs
  · exact h
  · have hvoted := @saveMeta_saved
      { adoptNewer args.term n with voteFor := some args.candidateId }
      (Or.inl (adoptNewer_metaFaults hf))
    exact hvoted.of_same rfl rfl rfl
  · exact adoptNewer_saved h fun _ => Or.inl hf

theorem handleTxVoteRequest_saved (clock : Clock) (req : VoteRequest) (h : MetaSaved n)
    (hf : n.storage.metaFaults = []) : MetaSaved (handleTxVoteRequest clock req n).2 := by
  rcases handleTxVoteRequest_extends clock req n with ⟨-, heq⟩ | ⟨c, -, hext⟩
  · rw [heq]
    exact stepDown_saved req.term (Or.inl hf)
  · have hsame : MetaSaved { n with commitIndex := c } := h.of_same rfl rfl rfl
    exact hsame.of_extends hext

theorem promoteToCandidate_saved (clock : Clock) (hf : n.storage.metaFaults = []) :
    MetaSaved (promoteToCandidate clock n) := by
  have hsaved := @saveMeta_saved
    { n with
      currentTerm := u64Succ n.currentTerm
      state := .candidate
      voteFor := some n.nodeId } (Or.inl hf)
  exact hsaved.of_same rfl rfl rfl

theorem followLeader_saved (clock : Clock) {term : Nat} (h : MetaSaved n)
    (hf : n.storage.metaFaults = []) : MetaSaved (followLeader clock term n) := by
  unfold followLeader
  dsimp only
  split_ifs
  · have hsaved := @saveMeta_saved { n with currentTerm := term, voteFor := none } (Or.inl hf)
    exact hsaved.of_same rfl rfl rfl
  · exact h.of_same rfl rfl rfl

/-- The commit index is not in the file. -/
theorem applyLogs_saved (clock : Clock) (h : MetaSaved n) (commitIndex : Nat) :
    MetaSaved (applyLogs clock { n with commitIndex := commitIndex }) := by
  have hsame : MetaSaved { n with commitIndex := commitIndex } := h.of_same rfl rfl rfl
  exact hsame.of_extends (applyLogs_extends clock _)

theorem followCommit_saved (clock : Clock) (leaderCommit : Nat) (h : MetaSaved n) :
    MetaSaved (followCommit clock leaderCommit n) := by
  unfold followCommit
  split_ifs
  · exact applyLogs_saved clock h _
  · exact h

theorem handleAppendEntries_saved (clock : Clock) (args : AppendEntriesArgs) (h : MetaSaved n)
    (hf : n.storage.metaFaults = []) : MetaSaved (handleAppendEntries clock args n).2 := by
  have hfollow : MetaSaved (followLeader clock args.term n) := followLeader_saved clock h hf
  rcases handleAppendEntries_cases clock args n with ⟨-, heq⟩ | ⟨-, ⟨-, heq⟩ | ⟨-, heq⟩⟩
  all_goals rw [heq]
  · exact h
  · exact hfollow
  · obtain ⟨storage, hmeta, -, hmerge⟩ :=
      foldl_mergeEntry_eq args.entries (followLeader clock args.term n)
    rw [hmerge]
    refine followCommit_saved clock args.leaderCommit ?_
    exact hfollow.of_same rfl rfl hmeta

theorem maybeCommit_saved (clock : Clock) (h : MetaSaved n) : MetaSaved (maybeCommit clock n) := by
  obtain ⟨c, -, hext⟩ := maybeCommit_extends clock n
  have hsame : MetaSaved { n with commitIndex := c } := h.of_same rfl rfl rfl
  exact hsame.of_extends hext

theorem appendReply_saved (clock : Clock) (peer : String) (args : AppendEntriesArgs)
    (reply : AppendReplyArgs) (h : MetaSaved n) (hf : n.storage.metaFaults = []) :
    MetaSaved (appendReply clock peer args reply n) := by
  unfold appendReply
  dsimp only
  split_ifs
  · exact maybeCommit_saved clock (h.of_same rfl rfl rfl)
  · exact stepDown_saved reply.term (Or.inl hf)
  · exact h.of_same rfl rfl rfl
  · exact h

theorem becomeLeader_saved (clock : Clock) (h : MetaSaved n) :
    MetaSaved (becomeLeader clock n) := by
  unfold becomeLeader
  split_ifs
  · exact h
  · exact h.of_same rfl rfl rfl

theorem preVoteAlone_saved (clock : Clock) (h : MetaSaved n) (hf : n.storage.metaFaults = []) :
    MetaSaved (preVoteAlone clock n) := by
  have hpromote := promoteToCandidate_saved clock hf
  unfold preVoteAlone becomeLeaderChecked
  split_ifs
  · exact hpromote
  · exact becomeLeader_saved clock hpromote
  · exact h

/-- The snapshot has a file of its own. -/
theorem saveSnapshot_metaFile (snapshot : Snapshot) (s : RaftStorage) :
    (RaftStorage.saveSnapshot snapshot s).2.metaFile = s.metaFile :=
  RaftStorage.saveSnapshot_keeps (fun _ _ => rfl) (fun _ _ => rfl) snapshot s

theorem rewriteWalAfterSnapshot_metaFile (snapshotIndex : Nat) (s : RaftStorage) :
    (RaftStorage.rewriteWalAfterSnapshot snapshotIndex s).2.metaFile = s.metaFile :=
  RaftStorage.rewriteWalAfterSnapshot_keeps (fun _ _ => rfl) (fun _ _ => rfl) snapshotIndex s

theorem handleInstallSnapshot_saved {clock : Clock} {args : InstallSnapshotArgs}
    {r : InstallSnapshotReplyArgs × RaftNode} (h : MetaSaved n)
    (hsaves : n.currentTerm < args.term → SavesMeta n)
    (hr : handleInstallSnapshot clock args n = some r) : MetaSaved r.2 := by
  have hadopt := adoptNewer_saved h hsaves
  rcases handleInstallSnapshot_cases hr with ⟨-, heq⟩ | ⟨-, sm, heq⟩ <;> rw [heq]
  · exact h
  · refine hadopt.of_same rfl rfl ?_
    exact (rewriteWalAfterSnapshot_metaFile _ _).trans (saveSnapshot_metaFile _ _)

theorem maybeSnapshot_saved {thresholdBytes : Nat} {r : Bool × RaftNode} (h : MetaSaved n)
    (hr : maybeSnapshot thresholdBytes n = some r) : MetaSaved r.2 := by
  unfold maybeSnapshot at hr
  dsimp only at hr
  split_ifs at hr
  · obtain rfl := Option.some.inj hr
    exact h
  · obtain rfl := Option.some.inj hr
    exact h
  · obtain rfl := Option.some.inj hr
    exact h
  · split at hr
    · cases hr
    · rename_i data hdata
      split at hr
      · rename_i e storage heq
        obtain rfl := Option.some.inj hr
        refine h.of_same rfl rfl ?_
        rw [← saveSnapshot_metaFile _ n.storage, heq]
      · rename_i u storage heq
        obtain rfl := Option.some.inj hr
        refine h.of_same rfl rfl ?_
        show (RaftStorage.rewriteWalAfterSnapshot n.commitIndex storage).2.metaFile = _
        rw [rewriteWalAfterSnapshot_metaFile, ← saveSnapshot_metaFile _ n.storage, heq]

end Saved

/-! ## Runs -/

/-- Every call keeps the file equal to the memory. -/
theorem step_saved {n n' : RaftNode} {e : NodeEvent} {snapshotFaults : List Bool}
    (h : MetaSaved n) (hstep : (withMetaOutcomes snapshotFaults e n).step e = some n') :
    MetaSaved n' := by
  have hm : MetaSaved (withMetaOutcomes snapshotFaults e n) := h.of_same rfl rfl rfl
  cases e with
  | propose | proposeBatch | proposeAddNode | proposeRemoveNode | proposeAbortTx =>
    exact hm.of_extends (step_proposed hstep rfl).toExtends
  | requestVote clock args =>
    obtain rfl := Option.some.inj hstep
    exact handleRequestVote_saved clock args hm rfl
  | preVote clock args =>
    obtain rfl := Option.some.inj hstep
    unfold handlePreVote
    dsimp only
    split_ifs <;> exact hm.of_same rfl rfl rfl
  | txVoteRequest clock req =>
    obtain rfl := Option.some.inj hstep
    exact handleTxVoteRequest_saved clock req hm rfl
  | appendEntries clock args =>
    obtain rfl := Option.some.inj hstep
    exact handleAppendEntries_saved clock args hm rfl
  | installSnapshot clock args =>
    obtain ⟨r, hr, rfl⟩ := Option.map_eq_some_iff.mp hstep
    refine handleInstallSnapshot_saved hm (fun hlt => Or.inr ⟨snapshotFaults, ?_⟩) hr
    exact if_pos hlt
  | becomeCandidate clock =>
    obtain rfl := Option.some.inj hstep
    exact promoteToCandidate_saved clock rfl
  | enterPreVote probedTerm =>
    obtain rfl := Option.some.inj hstep
    unfold enterPreVote
    split_ifs
    · exact hm.of_same rfl rfl rfl
    · exact hm
  | preVoteAlone clock =>
    obtain rfl := Option.some.inj hstep
    exact preVoteAlone_saved clock hm rfl
  | preVoteStale =>
    obtain rfl := Option.some.inj hstep
    unfold preVoteStale
    split_ifs
    · exact hm.of_same rfl rfl rfl
    · exact hm
  | preVoteQuorum clock =>
    obtain rfl := Option.some.inj hstep
    unfold preVoteQuorum
    split_ifs
    · exact hm
    · exact promoteToCandidate_saved clock rfl
  | voteQuorum clock term =>
    obtain rfl := Option.some.inj hstep
    unfold voteQuorum
    split_ifs
    · exact becomeLeader_saved clock hm
    · exact hm
  | voteRefused term reply =>
    obtain rfl := Option.some.inj hstep
    unfold voteRefused
    split_ifs
    · exact stepDown_saved reply.term (Or.inl rfl)
    · exact hm
  | coordinatorStepDown leaderTerm resp =>
    obtain rfl := Option.some.inj hstep
    unfold coordinatorStepDown
    split_ifs
    · exact stepDown_saved resp.term (Or.inl rfl)
    · exact hm
    · exact hm
  | syncAlone clock =>
    obtain rfl := Option.some.inj hstep
    unfold syncAlone
    split_ifs
    · exact maybeCommit_saved clock hm
    · exact hm
  | appendReply clock peer args reply =>
    obtain rfl := Option.some.inj hstep
    exact appendReply_saved clock peer args reply hm rfl
  | maybeSnapshot thresholdBytes =>
    obtain ⟨r, hr, rfl⟩ := Option.map_eq_some_iff.mp hstep
    exact maybeSnapshot_saved hm hr

/-- A start reads the pair back, and nothing after it writes the pair. -/
theorem restart_saved {raftAddr : String} {peers : List String} {clock : Clock} {n r : RaftNode}
    (hr : restart raftAddr peers clock n = some r) : MetaSaved r := by
  obtain ⟨-, hstorage, -, hterm, hvote, -⟩ := restart_eq hr
  unfold MetaSaved
  rw [hstorage, hterm, hvote]

theorem savingStep_saved {n n' : RaftNode} {e : LifeEvent × List Bool} (h : MetaSaved n)
    (hstep : n.savingStep e = some n') : MetaSaved n' := by
  obtain ⟨call | ⟨peers, clock⟩, snapshotFaults⟩ := e
  · exact step_saved h hstep
  · exact restart_saved hstep

/-- After every run of calls and restarts in which `save_meta` succeeds, the
file holds the term and the vote of the node, and a process that starts on the
files of the node has them.  `state` is the role in which `main` starts the
node. -/
theorem read_meta_eq_memory {raftAddr : String} {peers : List String} {sm : StateMachine}
    {storage : RaftStorage} {clock : Clock} {state : NodeState}
    {es : List (LifeEvent × List Bool)} {n : RaftNode}
    (hrun : run savingStep { new raftAddr peers sm storage clock with state := state } es =
      some n) :
    n.storage.readMeta = (n.currentTerm, n.voteFor) ∧
      (∀ raftAddr' peers' sm' clock',
        (new raftAddr' peers' sm' n.storage clock').currentTerm = n.currentTerm ∧
        (new raftAddr' peers' sm' n.storage clock').voteFor = n.voteFor) ∧
      ∀ peers' clock' r, restart n.nodeId peers' clock' n = some r →
        r.currentTerm = n.currentTerm ∧ r.voteFor = n.voteFor := by
  have hstart : MetaSaved { new raftAddr peers sm storage clock with state := state } := rfl
  have hsaved : MetaSaved n := by
    refine run_invariant (P := fun _ _ => True) ?_ hstart
      (along_of_forall (fun _ _ => trivial) es _) hrun
    exact fun hs _ hstep => savingStep_saved hs hstep
  have hterm : n.storage.readMeta.1 = n.currentTerm := congrArg Prod.fst hsaved
  have hvote : n.storage.readMeta.2 = n.voteFor := congrArg Prod.snd hsaved
  refine ⟨hsaved, fun _ _ _ _ => ⟨hterm, hvote⟩, fun peers' clock' r hr => ?_⟩
  obtain ⟨-, -, -, hrterm, hrvote, -⟩ := restart_eq hr
  exact ⟨hrterm.trans hterm, hrvote.trans hvote⟩

/-- Node `a` is a candidate of term 1, votes for `b` in term 2, crashes, and
steps down to term 3 in a snapshot whose own file cannot be written. -/
theorem read_meta_eq_memory_snapshot_fails :
    ∃ n, run savingStep (freshNode "a" ["b", "c"])
        [(.call (.becomeCandidate someClock), []),
          (.call (.requestVote someClock
            { term := 2, candidateId := "b", lastLogIndex := 0, lastLogTerm := 0 }), []),
          (.restart ["b", "c"] someClock, []),
          (.call (.installSnapshot someClock
            { term := 3, leaderId := "c", lastIncludedIndex := 0, lastIncludedTerm := 0,
              snapshot := ⟨0, 0, ∅⟩ }), [true])] = some n ∧
      n.storage.metaFaults = [] ∧ n.currentTerm = 3 ∧
      n.storage.readMeta = (n.currentTerm, n.voteFor) := by
  obtain ⟨n, hrun, hfaults, hterm⟩ : ∃ n, run savingStep (freshNode "a" ["b", "c"])
        [(.call (.becomeCandidate someClock), []),
          (.call (.requestVote someClock
            { term := 2, candidateId := "b", lastLogIndex := 0, lastLogTerm := 0 }), []),
          (.restart ["b", "c"] someClock, []),
          (.call (.installSnapshot someClock
            { term := 3, leaderId := "c", lastIncludedIndex := 0, lastIncludedTerm := 0,
              snapshot := ⟨0, 0, ∅⟩ }), [true])] = some n ∧
      n.storage.metaFaults = [] ∧ n.currentTerm = 3 := exists_run_of_any (by decide +kernel)
  have hsaved := @read_meta_eq_memory "a" ["b", "c"] freshStore RaftStorage.empty
    { now := 0, unixMs := fun _ => 0 } .follower _ n hrun
  exact ⟨n, hrun, hfaults, hterm, hsaved.1⟩

end RaftNode

end OxideKv
