import OxideKv.Raft.Merge
import OxideKv.Raft.Roles

/-!
# Calls of a node of fixed membership

No configuration is in the log of such a node, so applying it touches the
state machine only.  The lemmas write out what each call leaves of the node.
-/

namespace OxideKv

open Fallible

/-- No entry changes the configuration. -/
def PlainLog (log : List LogEntry) : Prop := ∀ e ∈ log, e.command.isPlain = true

namespace RaftNode

/-! ## Proposals -/

/-- `n'` is `n` with entries of commands that meet `P` appended. -/
def Appends (P : Command → Prop) (n n' : RaftNode) : Prop :=
  ∃ storage entries, n' = { n with storage := storage, log := n.log ++ entries } ∧
    NumberedFrom n entries ∧ (n.state ≠ .leader → entries = []) ∧
    ∀ e ∈ entries, P e.command

theorem Appends.refl (P : Command → Prop) (n : RaftNode) : Appends P n n :=
  ⟨n.storage, [], by simp, by simp [NumberedFrom], by simp, by simp⟩

theorem Appends.trans {P : Command → Prop} {n n₁ n₂ : RaftNode} (h₁ : Appends P n n₁)
    (h₂ : Appends P n₁ n₂) : Appends P n n₂ := by
  obtain ⟨st₁, es₁, rfl, hnum₁, hlead₁, hP₁⟩ := h₁
  obtain ⟨st₂, es₂, rfl, hnum₂, hlead₂, hP₂⟩ := h₂
  refine ⟨st₂, es₁ ++ es₂, by simp, ?_, ?_, ?_⟩
  · intro i e he
    rcases Nat.lt_or_ge i es₁.length with hi | hi
    · rw [List.getElem?_append_left hi] at he
      exact hnum₁ i e he
    · rw [List.getElem?_append_right hi] at he
      obtain ⟨hindex, hterm⟩ := hnum₂ _ e he
      simp only [List.length_append] at hindex
      exact ⟨by omega, hterm⟩
  · intro hs
    rw [hlead₁ hs, hlead₂ hs, List.append_nil]
  · intro e he
    rcases List.mem_append.mp he with he | he
    · exact hP₁ e he
    · exact hP₂ e he

theorem appendEntry_appends {P : Command → Prop} {n : RaftNode} (hs : n.state = .leader)
    {entry : LogEntry} (hindex : entry.index = n.log.length + 1)
    (hterm : entry.term = n.currentTerm) (hP : P entry.command) :
    Appends P n (appendEntry entry n).2 := by
  obtain ⟨storage, -, -, ⟨heq, -⟩ | ⟨e, heq, -⟩⟩ := appendEntry_cases entry n
  · rw [heq]
    refine ⟨storage, [entry], rfl, ?_, fun hc => absurd hs hc, by simpa using hP⟩
    intro i e he
    cases i with
    | zero =>
      obtain rfl : entry = e := by simpa using he
      exact ⟨by omega, hterm⟩
    | succ i => simp at he
  · rw [heq]
    exact ⟨storage, [], by simp, by simp [NumberedFrom], by simp, by simp⟩

theorem propose_appends {P : Command → Prop} {command : Command} (hP : P command)
    (n : RaftNode) : Appends P n (propose command n).2 := by
  unfold propose
  split_ifs with hs
  · exact Appends.refl P n
  · have h := @appendEntry_appends P n (not_not.mp hs) (n.nextEntry command) rfl rfl hP
    split
    all_goals
      rename_i heq
      rwa [heq] at h

theorem proposeBatchFrom_appends {P : Command → Prop} (commands : List Command) :
    ∀ {n : RaftNode}, n.state = .leader → (∀ c ∈ commands, P c) →
      Appends P n (proposeBatchFrom (n.log.length + 1) commands n).2 := by
  induction commands with
  | nil => exact fun _ _ => Appends.refl P _
  | cons command rest ih =>
    intro n hs hP
    have h := @appendEntry_appends P n hs
      { term := n.currentTerm, index := n.log.length + 1, command := command } rfl rfl
      (hP command (by simp))
    obtain ⟨storage, -, -, ⟨heq, -⟩ | ⟨e, heq, -⟩⟩ := appendEntry_cases
      { term := n.currentTerm, index := n.log.length + 1, command := command } n
    · rw [heq] at h
      have hrest := @ih _ (show ({ n with
          storage := storage
          log := n.log ++ [{ term := n.currentTerm, index := n.log.length + 1,
                             command := command }] } : RaftNode).state = .leader from hs)
        fun c hc => hP c (by simp [hc])
      simp only [List.length_append, List.length_singleton] at hrest
      simp only [proposeBatchFrom, heq]
      exact h.trans hrest
    · rw [heq] at h
      simp only [proposeBatchFrom, heq]
      exact h

theorem proposeBatch_appends {P : Command → Prop} {commands : List Command}
    (hP : ∀ c ∈ commands, P c) (n : RaftNode) : Appends P n (proposeBatch commands n).2 := by
  unfold proposeBatch
  split_ifs with hs
  · exact Appends.refl P n
  · exact proposeBatchFrom_appends commands (not_not.mp hs) hP

theorem proposeAbortTx_appends {P : Command → Prop} {txId : String}
    (hP : P (.decideTx txId .abort)) (n : RaftNode) :
    Appends P n (proposeAbortTx txId n).2 := by
  unfold proposeAbortTx
  split_ifs with hs hpend
  · exact Appends.refl P n
  · exact Appends.refl P n
  · have h := @appendEntry_appends P n (not_not.mp hs) (n.nextEntry (.decideTx txId .abort))
      rfl rfl hP
    split
    all_goals
      rename_i heq
      rwa [heq] at h

/-! ## Commit and apply -/

theorem applyCommand_plain (unixMs : Nat) {command : Command} (h : command.isPlain = true)
    (n : RaftNode) : applyCommand unixMs command n = applyStore unixMs command n := by
  cases command <;> first | rfl | cases h

theorem applyLoop_plain (clock : Clock) (fuel : Nat) :
    ∀ {n : RaftNode}, PlainLog n.log → ∃ sm k,
      applyLoop clock fuel n = { n with stateMachine := sm, lastApplied := k } := by
  induction fuel with
  | zero => exact fun {n} _ => ⟨n.stateMachine, n.lastApplied, rfl⟩
  | succ fuel ih =>
    intro n hplain
    unfold applyLoop
    split_ifs with hlt
    · cases hget : n.log[n.lastApplied]? with
      | none => exact ⟨n.stateMachine, n.lastApplied, rfl⟩
      | some entry =>
        have hentry := hplain entry (List.mem_of_getElem? hget)
        dsimp only
        rw [applyCommand_plain _ hentry]
        obtain ⟨sm, k, heq⟩ := @ih
          { applyStore (clock.unixMs n.lastApplied) entry.command n with
            lastApplied := n.lastApplied + 1 } hplain
        exact ⟨sm, k, heq⟩
    · exact ⟨n.stateMachine, n.lastApplied, rfl⟩

theorem applyLogs_plain (clock : Clock) {n : RaftNode} (hplain : PlainLog n.log)
    (hle : n.commitIndex ≤ n.log.length) :
    ∃ sm, applyLogs clock n =
      { n with stateMachine := sm, lastApplied := max n.lastApplied n.commitIndex } := by
  obtain ⟨sm, k, heq⟩ := applyLoop_plain clock (n.commitIndex - n.lastApplied) hplain
  have hk := applyLogs_lastApplied clock hle
  have heq' : applyLogs clock n = { n with stateMachine := sm, lastApplied := k } := heq
  rw [heq'] at hk
  rw [heq', show k = max n.lastApplied n.commitIndex from hk]
  exact ⟨sm, rfl⟩

theorem maybeCommit_plain (clock : Clock) {n : RaftNode} (hplain : PlainLog n.log) :
    maybeCommit clock n = n ∨
      ∃ c sm, n.state = .leader ∧ n.commitIndex < c ∧ c ≤ n.log.length ∧
        configQuorumReached n.currentConfig n.matchIndex n.nodeId n.log.length c = true ∧
        ((n.log[c - 1]?).map LogEntry.term).getD 0 = n.currentTerm ∧
        maybeCommit clock n =
          { n with commitIndex := c, stateMachine := sm, lastApplied := max n.lastApplied c } := by
  rcases maybeCommit_cases clock n with heq | ⟨c, hs, hlt, hle, hq, hterm, heq⟩
  · exact Or.inl heq
  · obtain ⟨sm, happly⟩ :=
      @applyLogs_plain clock { n with commitIndex := c } hplain hle
    exact Or.inr ⟨c, sm, hs, hlt, hle, hq, hterm, heq.trans happly⟩

/-! ## `handle_append_entries` -/

theorem mergeLog_subset {log : List LogEntry} {entry e : LogEntry} (h : e ∈ mergeLog log entry) :
    e ∈ log ∨ e = entry := by
  unfold mergeLog at h
  split at h
  · split_ifs at h
    · rcases List.mem_append.mp h with h | h
      · exact Or.inl (List.mem_of_mem_take h)
      · exact Or.inr (List.mem_singleton.mp h)
    · exact Or.inl h
  · rcases List.mem_append.mp h with h | h
    · exact Or.inl h
    · exact Or.inr (List.mem_singleton.mp h)

theorem foldl_mergeLog_subset (entries : List LogEntry) :
    ∀ {log : List LogEntry} {e : LogEntry}, e ∈ entries.foldl mergeLog log →
      e ∈ log ∨ e ∈ entries := by
  induction entries with
  | nil => exact fun h => Or.inl h
  | cons entry entries ih =>
    intro log e h
    rcases ih h with h | h
    · rcases mergeLog_subset h with h | rfl
      · exact Or.inl h
      · exact Or.inr (by simp)
    · exact Or.inr (by simp [h])

theorem plainLog_merge {log entries : List LogEntry} (hlog : PlainLog log)
    (hentries : PlainLog entries) : PlainLog (entries.foldl mergeLog log) := by
  intro e he
  rcases foldl_mergeLog_subset entries he with he | he
  · exact hlog e he
  · exact hentries e he

/-- What a node does with entries that it accepts. -/
theorem acceptEntries_plain (clock : Clock) {args : AppendEntriesArgs} {n : RaftNode}
    (hle : n.currentTerm ≤ args.term) (hplain : PlainLog n.log)
    (hentries : PlainLog args.entries) : ∃ sm storage,
    followCommit clock args.leaderCommit
        (args.entries.foldl mergeEntry (followLeader clock args.term n)) =
      { n with
        stateMachine := sm
        storage := storage
        currentTerm := args.term
        voteFor := if n.currentTerm < args.term then none else n.voteFor
        state := .follower
        lastHeartbeat := clock.now
        log := args.entries.foldl mergeLog n.log
        commitIndex :=
          if n.commitIndex < args.leaderCommit then
            min args.leaderCommit (args.entries.foldl mergeLog n.log).length
          else n.commitIndex
        lastApplied :=
          if n.commitIndex < args.leaderCommit then
            max n.lastApplied
              (min args.leaderCommit (args.entries.foldl mergeLog n.log).length)
          else n.lastApplied } := by
  obtain ⟨storage, -, -, -, hfollow⟩ := followLeader_eq clock hle
  obtain ⟨storage', -, -, hmerge⟩ :=
    foldl_mergeEntry_eq args.entries (followLeader clock args.term n)
  rw [hmerge, hfollow]
  unfold followCommit
  by_cases hcommit : n.commitIndex < args.leaderCommit
  · obtain ⟨sm, heq⟩ := @applyLogs_plain clock
      { n with
        storage := storage'
        currentTerm := args.term
        voteFor := if n.currentTerm < args.term then none else n.voteFor
        state := .follower
        lastHeartbeat := clock.now
        log := args.entries.foldl mergeLog n.log
        commitIndex := min args.leaderCommit (args.entries.foldl mergeLog n.log).length }
      (plainLog_merge hplain hentries) (Nat.min_le_right _ _)
    simp only [if_pos hcommit]
    exact ⟨sm, storage', heq⟩
  · simp only [if_neg hcommit]
    exact ⟨n.stateMachine, storage', rfl⟩

end RaftNode

end OxideKv
