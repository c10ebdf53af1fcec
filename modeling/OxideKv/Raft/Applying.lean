import OxideKv.Raft.DurableLog
import OxideKv.Raft.Effect
import OxideKv.Raft.Roles
import OxideKv.Raft.Coordinator

/-!
# What a call applies

`Consumes` says what a call does to the state machine: it applies the entries
of the log between the old and the new `last_applied`, in this order, and
nothing else.  It holds of every call but those that take or install a
snapshot, with no condition on the log (`step_consumes`); a configuration that
a leader applies can append to the log on the way.
-/

namespace OxideKv

open StateMachine

namespace RaftNode

/-- The entries of `log` from the position `lo` on to the position `hi`. -/
def between (lo hi : Nat) (log : List LogEntry) : List LogEntry := (log.take hi).drop lo

structure Consumes (n n' : RaftNode) : Prop where
  applied : n.lastApplied ≤ n'.lastApplied
  bound : n'.lastApplied ≤ max n.lastApplied n'.log.length
  snapshot : n'.storage.snapshot = n.storage.snapshot
  store : Layout n.stateMachine →
    Applied ((between n.lastApplied n'.lastApplied n'.log).map LogEntry.command) n n'

theorem between_self (i : Nat) (log : List LogEntry) : between i i log = [] := by
  refine List.drop_of_length_le ?_
  rw [List.length_take]
  omega

/-- The next entry and those that follow it. -/
theorem between_cons {lo hi : Nat} {log : List LogEntry} {entry : LogEntry} (hlt : lo < hi)
    (h : log[lo]? = some entry) : between lo hi log = entry :: between (lo + 1) hi log := by
  have hin : lo < (log.take hi).length := by
    have := (List.getElem?_eq_some_iff.mp h).1
    rw [List.length_take]
    omega
  have hget : (log.take hi)[lo] = entry := by
    have hsome := List.getElem?_eq_getElem hin
    rw [List.getElem?_take_of_lt hlt, h] at hsome
    exact (Option.some.inj hsome).symm
  unfold between
  rw [List.drop_eq_getElem_cons hin, hget]

theorem between_append {lo mid hi : Nat} (log : List LogEntry) (hlo : lo ≤ mid) (hhi : mid ≤ hi) :
    between lo hi log = between lo mid log ++ between mid hi log := by
  unfold between
  have hsplit : log.take hi = log.take mid ++ (log.take hi).drop mid := by
    conv_lhs => rw [← List.take_append_drop mid (log.take hi), List.take_take,
      Nat.min_eq_left hhi]
  rcases Nat.le_total log.length mid with hlen | hlen
  · rw [List.take_of_length_le hlen, List.take_of_length_le (hlen.trans hhi),
      List.drop_of_length_le hlen, List.append_nil]
  · conv_lhs => rw [hsplit, List.drop_append_of_le_length (by rw [List.length_take]; omega)]

/-- A log that goes on says the same about the entries it had. -/
theorem between_of_isPrefix {lo hi : Nat} {log log' : List LogEntry} (h : log <+: log')
    (hhi : hi ≤ log.length) : between lo hi log' = between lo hi log := by
  obtain ⟨rest, rfl⟩ := h
  unfold between
  rw [List.take_append_of_le_length hhi]

section Consumes

variable {n n₁ n' : RaftNode}

/-- The call has nothing to do with the state machine. -/
theorem Consumes.of_same (hsm : n'.stateMachine = n.stateMachine)
    (happlied : n'.lastApplied = n.lastApplied)
    (hconfig : n'.currentConfig = n.currentConfig)
    (hsnap : n'.storage.snapshot = n.storage.snapshot) : Consumes n n' := by
  refine ⟨happlied.ge, happlied.le.trans (Nat.le_max_left _ _), hsnap, fun hlayout => ?_⟩
  rw [happlied, between_self]
  exact ⟨by rw [hsm]; exact Writes.refl hlayout, by rw [hsm]; rfl, hconfig⟩

theorem Consumes.refl (n : RaftNode) : Consumes n n := .of_same rfl rfl rfl rfl

/-- Changes that have nothing to do with the state machine come first. -/
theorem Consumes.after (h : Consumes n₁ n') (hsm : n₁.stateMachine = n.stateMachine)
    (happlied : n₁.lastApplied = n.lastApplied)
    (hconfig : n₁.currentConfig = n.currentConfig)
    (hsnap : n₁.storage.snapshot = n.storage.snapshot) : Consumes n n' := by
  refine ⟨happlied ▸ h.applied, happlied ▸ h.bound, h.snapshot.trans hsnap, fun hlayout => ?_⟩
  have happ := h.store (hsm ▸ hlayout)
  rw [happlied] at happ
  refine ⟨?_, ?_, ?_⟩
  · rw [← hsm]
    exact happ.writes
  · rw [← hsm]
    exact happ.staged
  · rw [← hconfig]
    exact happ.config

/-- One entry is applied, then the others. -/
theorem Consumes.cons (h : Consumes n₁ n') {entry : LogEntry}
    (hget : n.log[n.lastApplied]? = some entry) (hlog : n.log <+: n'.log)
    (happlied : n₁.lastApplied = n.lastApplied + 1)
    (hsnap : n₁.storage.snapshot = n.storage.snapshot)
    (hstore : Layout n.stateMachine → Applied [entry.command] n n₁) : Consumes n n' := by
  have hle := h.applied
  have hbound := h.bound
  have hin := (List.getElem?_eq_some_iff.mp hget).1
  have hlen := hlog.length_le
  refine ⟨by omega, by omega, h.snapshot.trans hsnap, fun hlayout => ?_⟩
  have hfirst := hstore hlayout
  have hrest := h.store hfirst.writes.layout
  have hget' : n'.log[n.lastApplied]? = some entry := by
    obtain ⟨rest, hrest⟩ := hlog
    rw [← hrest, List.getElem?_append_left hin, hget]
  rw [between_cons (by omega) hget', List.map_cons]
  rw [happlied] at hrest
  exact hfirst.trans hrest

/-- Two calls that keep the log. -/
theorem Consumes.trans (h : Consumes n n₁) (h' : Consumes n₁ n') (hlog : n₁.log <+: n'.log) :
    Consumes n n' := by
  have hle := h.applied
  have hle' := h'.applied
  have hbound := h.bound
  have hbound' := h'.bound
  have hlen := hlog.length_le
  refine ⟨by omega, by omega, h'.snapshot.trans h.snapshot, fun hlayout => ?_⟩
  have hfirst := h.store hlayout
  have hsecond := h'.store hfirst.writes.layout
  have hsame : between n.lastApplied n₁.lastApplied n'.log =
      between n.lastApplied n₁.lastApplied n₁.log := by
    rcases Nat.le_total n₁.lastApplied n₁.log.length with hin | hout
    · exact between_of_isPrefix hlog hin
    · -- beyond the end of the log nothing was applied
      rcases Nat.lt_or_ge n.lastApplied n₁.lastApplied with hlt | hge
      · exact between_of_isPrefix hlog (by omega)
      · rw [Nat.le_antisymm hle hge, between_self, between_self]
  rw [between_append _ hle hle', List.map_append, hsame]
  exact hfirst.trans hsecond

end Consumes

/-! ## The loop of `apply_logs` -/

theorem applyLoop_consumes (clock : Clock) (fuel : Nat) :
    ∀ n : RaftNode, Consumes n (applyLoop clock fuel n) := by
  induction fuel with
  | zero => exact Consumes.refl
  | succ fuel ih =>
    intro n
    rw [applyLoop]
    split_ifs with hlt
    · cases hget : n.log[n.lastApplied]? with
      | none => exact Consumes.refl n
      | some entry =>
        have hext := applyCommand_extends (clock.unixMs n.lastApplied) entry.command n
        refine (ih _).cons hget ?_ ?_ hext.snapshot fun hlayout => ?_
        · have hrest := applyLoop_extends clock fuel
            { applyCommand (clock.unixMs n.lastApplied) entry.command n with
              lastApplied :=
                (applyCommand (clock.unixMs n.lastApplied) entry.command n).lastApplied + 1 }
          exact hext.isPrefix.trans hrest.isPrefix
        · exact congrArg (· + 1)
            (applyCommand_lastApplied (clock.unixMs n.lastApplied) entry.command n)
        · have happ := applyCommand_ok hlayout (clock.unixMs n.lastApplied) entry.command
          exact ⟨happ.writes, happ.staged, happ.config⟩
    · exact Consumes.refl n

theorem applyLogs_consumes (clock : Clock) (n : RaftNode) : Consumes n (applyLogs clock n) :=
  applyLoop_consumes clock _ n

theorem maybeCommit_consumes (clock : Clock) (n : RaftNode) :
    Consumes n (maybeCommit clock n) := by
  rcases maybeCommit_cases clock n with heq | ⟨c, -, -, -, -, -, heq⟩ <;> rw [heq]
  · exact .refl n
  · exact (applyLogs_consumes clock { n with commitIndex := c }).after rfl rfl rfl rfl

theorem RoleMoved.consumes {n n' : RaftNode} (h : RoleMoved n n') : Consumes n n' := by
  obtain ⟨storage, -, hsnap, -, _, _, _, _, _, rfl⟩ := h
  exact .of_same rfl rfl rfl hsnap

theorem Proposed.consumes {n n' : RaftNode} (h : Proposed n n') : Consumes n n' :=
  .of_same h.stateMachine h.lastApplied h.currentConfig h.snapshot

theorem handleAppendEntries_consumes (clock : Clock) (args : AppendEntriesArgs) (n : RaftNode) :
    Consumes n (handleAppendEntries clock args n).2 := by
  rcases handleAppendEntries_cases clock args n with
    ⟨_, heq⟩ | ⟨⟨hle, _⟩, ⟨_, heq⟩ | ⟨_, heq⟩⟩ <;> rw [heq]
  · exact .refl n
  · obtain ⟨storage, -, hsnap, -, hfollow⟩ := followLeader_eq clock hle
    rw [hfollow]
    exact .of_same rfl rfl rfl hsnap
  · obtain ⟨storage, -, hsnap, -, hfollow⟩ := followLeader_eq clock hle
    obtain ⟨storage', -, hsnap', hmerge⟩ :=
      foldl_mergeEntry_eq args.entries (followLeader clock args.term n)
    rw [hfollow] at hsnap' hmerge
    rw [hfollow, hmerge]
    unfold followCommit
    dsimp only
    by_cases hcommit : n.commitIndex < args.leaderCommit
    · rw [if_pos hcommit]
      exact (applyLogs_consumes clock _).after rfl rfl rfl (hsnap'.trans hsnap)
    · rw [if_neg hcommit]
      exact .of_same rfl rfl rfl (hsnap'.trans hsnap)

/-! ## Votes on a transaction -/

theorem recordVote_eq (txId voter : String) (vote : Vote) (sm : StateMachine) :
    (recordVote txId voter vote sm).2 =
      match sm.pendingTxs[txId]? with
      | some tx =>
          { sm with
            pendingTxs := sm.pendingTxs.insert txId
              { tx with votes := tx.votes.insert voter vote } }
      | none => sm := rfl

/-- A recorded vote leaves the operations of the transactions alone. -/
theorem recordVote_staged (txId voter : String) (vote : Vote) (sm : StateMachine) :
    (recordVote txId voter vote sm).2.staged = sm.staged := by
  funext id
  rw [recordVote_eq]
  cases htx : sm.pendingTxs[txId]? with
  | none => rfl
  | some tx =>
    simp only [staged, Std.TreeMap.getElem?_insert]
    by_cases hid : txId = id
    · subst hid
      simp [htx]
    · simp [hid]

theorem recordVote_writes (txId voter : String) (vote : Vote) {sm : StateMachine}
    (h : Layout sm) : Writes sm (recordVote txId voter vote sm).2 [] := by
  have heq : ∃ pending, (recordVote txId voter vote sm).2 = { sm with pendingTxs := pending } := by
    rw [recordVote_eq]
    cases sm.pendingTxs[txId]? with
    | none => exact ⟨sm.pendingTxs, rfl⟩
    | some tx => exact ⟨_, rfl⟩
  obtain ⟨pending, heq⟩ := heq
  rw [heq]
  refine ⟨⟨h.faults, h.handles, h.sidecars, h.ids, h.next, h.rows⟩, id, fun key => ?_⟩
  rw [List.append_nil]
  rfl

theorem recordYes_consumes (txId voter : String) (n : RaftNode) :
    Consumes n (recordYes txId voter n) := by
  refine ⟨le_rfl, Nat.le_max_left _ _, rfl, fun hlayout => ?_⟩
  have hnil : between n.lastApplied (recordYes txId voter n).lastApplied
      (recordYes txId voter n).log = [] := between_self n.lastApplied n.log
  rw [hnil]
  exact ⟨recordVote_writes txId voter .yes hlayout, recordVote_staged txId voter .yes _, rfl⟩

/-- `handle_tx_vote_request` refuses, steps down, or goes on to the entry in
question and applies. -/
theorem handleTxVoteRequest_cases (clock : Clock) (req : VoteRequest) (n : RaftNode) :
    (handleTxVoteRequest clock req n).2 = n ∨
      n.currentTerm < req.term ∧ (handleTxVoteRequest clock req n).2 = stepDown req.term n ∨
      n.currentTerm = req.term ∧ n.logUpToDate req.lastLogIndex req.lastLogTerm = true ∧
        ((handleTxVoteRequest clock req n).2 =
            applyLogs clock (fastForwardCommit req.lastLogIndex n) ∨
          (handleTxVoteRequest clock req n).2 =
            recordYes req.txId (applyLogs clock (fastForwardCommit req.lastLogIndex n)).nodeId
              (applyLogs clock (fastForwardCommit req.lastLogIndex n))) := by
  unfold handleTxVoteRequest
  split_ifs with hlt hnew hlog
  · exact Or.inl rfl
  · exact Or.inr (Or.inl ⟨hnew, rfl⟩)
  · exact Or.inl rfl
  · refine Or.inr (Or.inr ⟨by omega, by simpa using hlog, ?_⟩)
    dsimp only
    split_ifs
    · exact Or.inl rfl
    · exact Or.inr rfl

theorem handleTxVoteRequest_consumes (clock : Clock) (req : VoteRequest) (n : RaftNode) :
    Consumes n (handleTxVoteRequest clock req n).2 := by
  have happly : Consumes n (applyLogs clock (fastForwardCommit req.lastLogIndex n)) := by
    rcases fastForwardCommit_eq req.lastLogIndex n with heq | ⟨-, -, heq⟩ <;> rw [heq]
    · exact applyLogs_consumes clock n
    · exact (applyLogs_consumes clock _).after rfl rfl rfl rfl
  rcases handleTxVoteRequest_cases clock req n with heq | ⟨-, heq⟩ | ⟨-, -, heq | heq⟩ <;> rw [heq]
  · exact .refl n
  · exact (stepDown_roleMoved req.term n).consumes
  · exact happly
  · exact happly.trans (recordYes_consumes _ _ _) List.prefix_rfl

/-! ## Every call -/

theorem step_consumes {n n' : RaftNode} {e : NodeEvent} (he : e.isSnapshot = false)
    (hstep : n.step e = some n') : Consumes n n' := by
  cases e with
  | propose | proposeBatch | proposeAddNode | proposeRemoveNode | proposeAbortTx =>
    exact (step_proposed hstep rfl).consumes
  | requestVote | preVote | becomeCandidate | enterPreVote | preVoteAlone | preVoteStale
  | preVoteQuorum | voteQuorum | voteRefused | coordinatorStepDown =>
    exact (step_roleMoved hstep rfl).consumes
  | txVoteRequest clock req =>
    obtain rfl := Option.some.inj hstep
    exact handleTxVoteRequest_consumes clock req n
  | appendEntries clock args =>
    obtain rfl := Option.some.inj hstep
    exact handleAppendEntries_consumes clock args n
  | syncAlone clock =>
    obtain rfl := Option.some.inj hstep
    unfold syncAlone
    split_ifs
    · exact maybeCommit_consumes clock n
    · exact .refl n
  | appendReply clock peer args reply =>
    obtain rfl := Option.some.inj hstep
    unfold appendReply
    dsimp only
    split_ifs
    · exact (maybeCommit_consumes clock _).after rfl rfl rfl rfl
    · exact (stepDown_roleMoved reply.term n).consumes
    · exact .of_same rfl rfl rfl rfl
    · exact .refl n
  | installSnapshot | maybeSnapshot => cases he

end RaftNode

end OxideKv
