import OxideKv.Raft.Steps

/-!
# What a step leaves alone

`Extends n n'` says that `n'` is `n` with entries appended to its log: the
new entries are numbered on from the end of the log, carry the term of the
node, and reach the log file as well.  Proposals and the application of
committed entries, with the proposal that follows a joint configuration, are
of this kind.

A handler changes the election state, merges entries, or does both before it
applies; `handleAppendEntries_cases` and the lemmas around it say which.
-/

namespace OxideKv

open Fallible

namespace RaftNode

/-- The entries are numbered on from the end of the log and carry the term of
the node. -/
def NumberedFrom (n : RaftNode) (entries : List LogEntry) : Prop :=
  ∀ i e, entries[i]? = some e → e.index = n.log.length + i + 1 ∧ e.term = n.currentTerm

/-- `n'` is `n` with entries appended, in the log and in the log file. -/
structure Extends (n n' : RaftNode) : Prop where
  currentTerm : n'.currentTerm = n.currentTerm
  voteFor : n'.voteFor = n.voteFor
  state : n'.state = n.state
  nodeId : n'.nodeId = n.nodeId
  commitIndex : n'.commitIndex = n.commitIndex
  nextIndex : n'.nextIndex = n.nextIndex
  matchIndex : n'.matchIndex = n.matchIndex
  lastQuorumHeartbeatAt : n'.lastQuorumHeartbeatAt = n.lastQuorumHeartbeatAt
  metaFile : n'.storage.metaFile = n.storage.metaFile
  snapshot : n'.storage.snapshot = n.storage.snapshot
  appended : ∃ entries, n'.log = n.log ++ entries ∧ NumberedFrom n entries ∧
    (n.state ≠ .leader → entries = []) ∧
    (n.storage.walFaults = [] →
      n'.storage.wal = n.storage.wal ++ entries ∧ n'.storage.walFaults = [])

namespace Extends

variable {n n₁ n₂ : RaftNode}

theorem refl (n : RaftNode) : Extends n n :=
  ⟨rfl, rfl, rfl, rfl, rfl, rfl, rfl, rfl, rfl, rfl, [], by simp, by simp [NumberedFrom], by simp,
    fun h => ⟨by simp, h⟩⟩

theorem trans (h₁ : Extends n n₁) (h₂ : Extends n₁ n₂) : Extends n n₂ := by
  obtain ⟨es₁, hlog₁, hnum₁, hidle₁, hwal₁⟩ := h₁.appended
  obtain ⟨es₂, hlog₂, hnum₂, hidle₂, hwal₂⟩ := h₂.appended
  refine ⟨h₂.currentTerm.trans h₁.currentTerm, h₂.voteFor.trans h₁.voteFor,
    h₂.state.trans h₁.state, h₂.nodeId.trans h₁.nodeId,
    h₂.commitIndex.trans h₁.commitIndex, h₂.nextIndex.trans h₁.nextIndex,
    h₂.matchIndex.trans h₁.matchIndex,
    h₂.lastQuorumHeartbeatAt.trans h₁.lastQuorumHeartbeatAt, h₂.metaFile.trans h₁.metaFile,
    h₂.snapshot.trans h₁.snapshot, es₁ ++ es₂, ?_, ?_, ?_, ?_⟩
  · rw [hlog₂, hlog₁, List.append_assoc]
  · intro i e hi
    rcases Nat.lt_or_ge i es₁.length with hlt | hge
    · rw [List.getElem?_append_left hlt] at hi
      exact hnum₁ i e hi
    · rw [List.getElem?_append_right hge] at hi
      obtain ⟨hidx, hterm⟩ := hnum₂ _ e hi
      rw [hlog₁, List.length_append] at hidx
      exact ⟨by omega, hterm.trans h₁.currentTerm⟩
  · intro hs
    rw [hidle₁ hs, hidle₂ (h₁.state ▸ hs), List.append_nil]
  · intro hf
    obtain ⟨hw₁, hf₁⟩ := hwal₁ hf
    obtain ⟨hw₂, hf₂⟩ := hwal₂ hf₁
    exact ⟨by rw [hw₂, hw₁, List.append_assoc], hf₂⟩

theorem isPrefix (h : Extends n n₁) : n.log <+: n₁.log := by
  obtain ⟨es, hlog, -⟩ := h.appended
  rw [hlog]
  exact List.prefix_append _ _

/-- Nothing that `Extends` looks at has changed. -/
theorem of_same {n n' : RaftNode} (hterm : n'.currentTerm = n.currentTerm)
    (hvote : n'.voteFor = n.voteFor) (hstate : n'.state = n.state)
    (hid : n'.nodeId = n.nodeId) (hcommit : n'.commitIndex = n.commitIndex)
    (hnext : n'.nextIndex = n.nextIndex) (hmatch : n'.matchIndex = n.matchIndex)
    (hquorum : n'.lastQuorumHeartbeatAt = n.lastQuorumHeartbeatAt)
    (hstorage : n'.storage = n.storage) (hlog : n'.log = n.log) : Extends n n' :=
  ⟨hterm, hvote, hstate, hid, hcommit, hnext, hmatch, hquorum, by rw [hstorage], by rw [hstorage],
    [], by simp [hlog], by simp [NumberedFrom], by simp,
    fun h => ⟨by simp [hstorage], by rw [hstorage, h]⟩⟩

/-- A follower's log is not extended. -/
theorem log_eq {n n' : RaftNode} (h : Extends n n') (hs : n.state ≠ .leader) :
    n'.log = n.log := by
  obtain ⟨es, hlog, -, hidle, -⟩ := h.appended
  rw [hlog, hidle hs, List.append_nil]

end Extends

/-! ## Appending -/

/-- The log file keeps the term, the vote and the snapshot. -/
theorem appendWalLog_frame (entry : LogEntry) (s : RaftStorage) :
    (RaftStorage.appendWalLog entry s).2.metaFile = s.metaFile ∧
      (RaftStorage.appendWalLog entry s).2.snapshot = s.snapshot :=
  ⟨RaftStorage.appendWalLog_keeps (fun _ _ => rfl) (fun _ _ => rfl) entry s,
    RaftStorage.appendWalLog_keeps (fun _ _ => rfl) (fun _ _ => rfl) entry s⟩

/-- An entry is appended to both logs, or the log stays as it is. -/
theorem appendEntry_cases (entry : LogEntry) (n : RaftNode) :
    ∃ storage : RaftStorage, storage.metaFile = n.storage.metaFile ∧
      storage.snapshot = n.storage.snapshot ∧
      ((appendEntry entry n = (.ok (), { n with storage := storage, log := n.log ++ [entry] }) ∧
          (n.storage.walFaults = [] →
            storage.wal = n.storage.wal ++ [entry] ∧ storage.walFaults = [])) ∨
        (∃ e, appendEntry entry n = (.error e, { n with storage := storage }) ∧
          n.storage.walFaults ≠ [])) := by
  obtain ⟨hmeta, hsnap⟩ := appendWalLog_frame entry n.storage
  refine ⟨(RaftStorage.appendWalLog entry n.storage).2, hmeta, hsnap, ?_⟩
  rw [appendEntry]
  rcases hres : RaftStorage.appendWalLog entry n.storage with ⟨_ | _, storage⟩
  · refine Or.inr ⟨_, rfl, fun hf => ?_⟩
    rw [RaftStorage.appendWalLog_ok hf] at hres
    cases hres
  · refine Or.inl ⟨rfl, fun hf => ?_⟩
    rw [RaftStorage.appendWalLog_ok hf] at hres
    cases hres
    exact ⟨rfl, hf⟩

/-- The entry a leader makes extends its log. -/
theorem appendEntry_extends {n : RaftNode} (hs : n.state = .leader) (entry : LogEntry)
    (hindex : entry.index = n.log.length + 1) (hterm : entry.term = n.currentTerm) :
    Extends n (appendEntry entry n).2 := by
  obtain ⟨storage, hmeta, hsnap, h⟩ := appendEntry_cases entry n
  rcases h with ⟨heq, hwal⟩ | ⟨e, heq, hf⟩
  · rw [heq]
    refine ⟨rfl, rfl, rfl, rfl, rfl, rfl, rfl, rfl, hmeta, hsnap, [entry], rfl, ?_,
      fun hne => absurd hs hne, hwal⟩
    intro i e hi
    rw [List.getElem?_singleton] at hi
    split_ifs at hi with h0
    obtain rfl := Option.some.inj hi
    exact ⟨by omega, hterm⟩
  · rw [heq]
    exact ⟨rfl, rfl, rfl, rfl, rfl, rfl, rfl, rfl, hmeta, hsnap, [], by simp,
      by simp [NumberedFrom], by simp, fun h => absurd h hf⟩

/-! ## Proposals -/

/-- A proposal extends the log and leaves the applied part alone. -/
structure Proposed (n n' : RaftNode) : Prop extends Extends n n' where
  lastApplied : n'.lastApplied = n.lastApplied
  stateMachine : n'.stateMachine = n.stateMachine
  currentConfig : n'.currentConfig = n.currentConfig
  peers : n'.peers = n.peers

theorem Proposed.refl (n : RaftNode) : Proposed n n :=
  ⟨Extends.refl n, rfl, rfl, rfl, rfl⟩

theorem Proposed.trans {n n₁ n₂ : RaftNode} (h₁ : Proposed n n₁) (h₂ : Proposed n₁ n₂) :
    Proposed n n₂ :=
  ⟨h₁.toExtends.trans h₂.toExtends, h₂.lastApplied.trans h₁.lastApplied,
    h₂.stateMachine.trans h₁.stateMachine, h₂.currentConfig.trans h₁.currentConfig,
    h₂.peers.trans h₁.peers⟩

theorem appendEntry_proposed {n : RaftNode} (hs : n.state = .leader) (entry : LogEntry)
    (hindex : entry.index = n.log.length + 1) (hterm : entry.term = n.currentTerm) :
    Proposed n (appendEntry entry n).2 := by
  refine ⟨appendEntry_extends hs entry hindex hterm, ?_, ?_, ?_, ?_⟩ <;>
    rcases appendEntry_cases entry n with ⟨_, _, _, ⟨heq, _⟩ | ⟨_, heq, _⟩⟩ <;>
    rw [heq]

theorem propose_proposed (command : Command) (n : RaftNode) :
    Proposed n (propose command n).2 := by
  rw [propose]
  split_ifs with hs
  · exact Proposed.refl n
  · have h := appendEntry_proposed (not_not.mp hs) (n.nextEntry command) rfl rfl
    split <;> rename_i heq <;> rw [heq] at h <;> exact h

/-- A proposal that succeeds appends the entry. -/
theorem propose_eq_true {command : Command} {n : RaftNode} (h : (propose command n).1 = true) :
    n.state = .leader ∧ ∃ storage, (propose command n).2 =
      { n with storage := storage, log := n.log ++ [n.nextEntry command] } := by
  unfold propose at h ⊢
  by_cases hs : n.state ≠ .leader
  · rw [if_pos hs] at h
    cases h
  · rw [if_neg hs] at h ⊢
    obtain ⟨storage, -, -, ⟨heq, -⟩ | ⟨e, heq, -⟩⟩ := appendEntry_cases (n.nextEntry command) n
    · rw [heq]
      exact ⟨not_not.mp hs, storage, rfl⟩
    · rw [heq] at h
      cases h

theorem proposeBatchFrom_proposed (commands : List Command) :
    ∀ {n : RaftNode}, n.state = .leader →
      Proposed n (proposeBatchFrom (n.log.length + 1) commands n).2 := by
  induction commands with
  | nil => exact fun _ => Proposed.refl _
  | cons command rest ih =>
    intro n hs
    have h := appendEntry_proposed hs (n.nextEntry command) rfl rfl
    show Proposed n (proposeBatchFrom _ (command :: rest) n).2
    rw [proposeBatchFrom, ← nextEntry]
    rcases appendEntry_cases (n.nextEntry command) n with
      ⟨storage, _, _, ⟨heq, _⟩ | ⟨e, heq, _⟩⟩
    · rw [heq] at h ⊢
      refine h.trans ?_
      have hrest := @ih { n with storage := storage, log := n.log ++ [n.nextEntry command] } hs
      rw [List.length_append] at hrest
      exact hrest
    · rw [heq] at h ⊢
      exact h

theorem proposeBatch_proposed (commands : List Command) (n : RaftNode) :
    Proposed n (proposeBatch commands n).2 := by
  rw [proposeBatch]
  split_ifs with hs
  · exact Proposed.refl n
  · exact proposeBatchFrom_proposed commands (not_not.mp hs)

theorem proposeConfiguration_proposed {n : RaftNode} (hs : n.state = .leader)
    (old new : List ServerId) : Proposed n (proposeConfiguration old new n).2 := by
  have h := appendEntry_proposed hs (n.nextEntry (.installConfiguration (.joint old new)))
    rfl rfl
  rw [proposeConfiguration]
  rcases appendEntry_cases (n.nextEntry (.installConfiguration (.joint old new))) n with
    ⟨storage, _, _, ⟨heq, _⟩ | ⟨e, heq, _⟩⟩ <;> rw [heq] at h ⊢
  · exact h.trans ⟨Extends.of_same rfl rfl rfl rfl rfl rfl rfl rfl rfl rfl, rfl, rfl, rfl, rfl⟩
  · exact h

theorem proposeAddNode_proposed (server : ServerId) (n : RaftNode) :
    Proposed n (proposeAddNode server n).2 := by
  rw [proposeAddNode]
  split_ifs with hs hmember
  · exact Proposed.refl n
  · exact Proposed.refl n
  · exact proposeConfiguration_proposed (not_not.mp hs) _ _

theorem proposeRemoveNode_proposed (nodeId : String) (n : RaftNode) :
    Proposed n (proposeRemoveNode nodeId n).2 := by
  rw [proposeRemoveNode]
  dsimp only
  split_ifs with hs hself hmember hlast
  · exact Proposed.refl n
  · exact Proposed.refl n
  · exact Proposed.refl n
  · exact Proposed.refl n
  · exact proposeConfiguration_proposed (not_not.mp hs) _ _

theorem proposeAbortTx_proposed (txId : String) (n : RaftNode) :
    Proposed n (proposeAbortTx txId n).2 := by
  rw [proposeAbortTx]
  split_ifs with hs hpending
  · exact Proposed.refl n
  · exact Proposed.refl n
  · have h := appendEntry_proposed (not_not.mp hs) (n.nextEntry (.decideTx txId .abort)) rfl rfl
    split <;> rename_i heq <;> rw [heq] at h <;> exact h

/-- What a proposal of any kind leaves alone. -/
theorem step_proposed {n n' : RaftNode} {e : NodeEvent} (hstep : n.step e = some n')
    (he : e.IsProposal = true) : Proposed n n' := by
  cases e with
  | propose command =>
    obtain rfl := Option.some.inj hstep
    exact propose_proposed command n
  | proposeBatch commands =>
    obtain rfl := Option.some.inj hstep
    exact proposeBatch_proposed commands n
  | proposeAddNode server =>
    obtain rfl := Option.some.inj hstep
    exact proposeAddNode_proposed server n
  | proposeRemoveNode nodeId =>
    obtain rfl := Option.some.inj hstep
    exact proposeRemoveNode_proposed nodeId n
  | proposeAbortTx txId =>
    obtain rfl := Option.some.inj hstep
    exact proposeAbortTx_proposed txId n
  | _ => cases he

/-! ## Applying -/

theorem installConfiguration_extends (config : Configuration) (n : RaftNode) :
    Extends n (installConfiguration config n) := by
  rw [installConfiguration]
  dsimp only
  split_ifs with hs
  · cases hpend : n.pendingPostJointSimple with
    | none => exact Extends.of_same rfl rfl rfl rfl rfl rfl rfl rfl rfl rfl
    | some simpleNew =>
      dsimp only
      split_ifs with hmatch
      · refine Extends.trans ?_ (appendEntry_extends (by exact hs) _ rfl rfl)
        exact Extends.of_same rfl rfl rfl rfl rfl rfl rfl rfl rfl rfl
      · exact Extends.of_same rfl rfl rfl rfl rfl rfl rfl rfl rfl rfl
  · exact Extends.of_same rfl rfl rfl rfl rfl rfl rfl rfl rfl rfl

theorem applyStore_extends (unixMs : Nat) (command : Command) (n : RaftNode) :
    Extends n (applyStore unixMs command n) :=
  Extends.of_same rfl rfl rfl rfl rfl rfl rfl rfl rfl rfl

theorem applyCommand_extends (unixMs : Nat) (command : Command) (n : RaftNode) :
    Extends n (applyCommand unixMs command n) := by
  cases command with
  | installConfiguration config => exact installConfiguration_extends config n
  | _ => exact applyStore_extends unixMs _ n

theorem applyLoop_extends (clock : Clock) (fuel : Nat) :
    ∀ n : RaftNode, Extends n (applyLoop clock fuel n) := by
  induction fuel with
  | zero => exact Extends.refl
  | succ fuel ih =>
    intro n
    rw [applyLoop]
    split_ifs with hlt
    · cases n.log[n.lastApplied]? with
      | none => exact Extends.refl n
      | some entry =>
        refine (applyCommand_extends (clock.unixMs n.lastApplied) entry.command n).trans ?_
        refine Extends.trans ?_ (ih _)
        exact Extends.of_same rfl rfl rfl rfl rfl rfl rfl rfl rfl rfl
    · exact Extends.refl n

theorem applyLogs_extends (clock : Clock) (n : RaftNode) : Extends n (applyLogs clock n) :=
  applyLoop_extends clock _ n

theorem applyCommand_lastApplied (unixMs : Nat) (command : Command) (n : RaftNode) :
    (applyCommand unixMs command n).lastApplied = n.lastApplied := by
  cases command with
  | installConfiguration config =>
    show (installConfiguration config n).lastApplied = n.lastApplied
    rw [installConfiguration]
    dsimp only
    split_ifs with hs
    · cases hpend : n.pendingPostJointSimple with
      | none => rfl
      | some simpleNew =>
        dsimp only
        split_ifs with hmatch
        · rw [(appendEntry_proposed (by exact hs) _ rfl rfl).lastApplied]
        · rfl
    · rfl
  | _ => rfl

/-- `apply_logs` reaches the commit index when the log does. -/
theorem applyLogs_lastApplied (clock : Clock) {n : RaftNode}
    (hle : n.commitIndex ≤ n.log.length) :
    (applyLogs clock n).lastApplied = max n.lastApplied n.commitIndex := by
  have hloop : ∀ (fuel : Nat) (n : RaftNode), n.commitIndex ≤ n.log.length →
      fuel = n.commitIndex - n.lastApplied →
      (applyLoop clock fuel n).lastApplied = max n.lastApplied n.commitIndex := by
    intro fuel
    induction fuel with
    | zero =>
      intro n _ hfuel
      rw [applyLoop]
      omega
    | succ fuel ih =>
      intro n hle hfuel
      have hlt : n.lastApplied < n.commitIndex := by omega
      rw [applyLoop, if_pos hlt, List.getElem?_eq_getElem (by omega : n.lastApplied < n.log.length)]
      dsimp only
      have hext := applyCommand_extends (clock.unixMs n.lastApplied)
        n.log[n.lastApplied].command n
      have hla := applyCommand_lastApplied (clock.unixMs n.lastApplied)
        n.log[n.lastApplied].command n
      obtain ⟨es, hlog, -⟩ := hext.appended
      rw [ih]
      · show max (_ + 1) _ = _
        rw [hext.commitIndex, hla]
        omega
      · show (applyCommand _ _ n).commitIndex ≤ (applyCommand _ _ n).log.length
        rw [hext.commitIndex, hlog, List.length_append]
        omega
      · show fuel = (applyCommand _ _ n).commitIndex - ((applyCommand _ _ n).lastApplied + 1)
        rw [hext.commitIndex, hla]
        omega
  exact hloop _ n hle rfl

/-- `maybe_commit` does nothing, or it moves the commit index to an entry of
the node's own term that a quorum holds, and applies. -/
theorem maybeCommit_cases (clock : Clock) (n : RaftNode) :
    maybeCommit clock n = n ∨
      ∃ c, n.state = .leader ∧ n.commitIndex < c ∧ c ≤ n.log.length ∧
        configQuorumReached n.currentConfig n.matchIndex n.nodeId n.log.length c = true ∧
        ((n.log[c - 1]?).map LogEntry.term).getD 0 = n.currentTerm ∧
        maybeCommit clock n = applyLogs clock { n with commitIndex := c } := by
  rw [maybeCommit]
  dsimp only
  split_ifs with hs hlt hterm
  · exact Or.inl rfl
  · obtain ⟨hquorum, hle⟩ := configQuorumReachedIndex_reached
      (Nat.lt_of_le_of_lt (Nat.zero_le _) hlt)
    exact Or.inr ⟨_, not_not.mp hs, hlt, hle, hquorum, hterm, rfl⟩
  · exact Or.inl rfl
  · exact Or.inl rfl

/-- Of the indices it moves `commit_index` and `last_applied` only. -/
theorem maybeCommit_extends (clock : Clock) (n : RaftNode) :
    ∃ c, n.commitIndex ≤ c ∧ Extends { n with commitIndex := c } (maybeCommit clock n) := by
  rcases maybeCommit_cases clock n with heq | ⟨c, -, hlt, -, -, -, heq⟩
  · exact ⟨n.commitIndex, Nat.le_refl _, by rw [heq]; exact Extends.refl n⟩
  · exact ⟨c, hlt.le, by rw [heq]; exact applyLogs_extends clock _⟩

/-! ## Merging -/

/-- One turn of the loop of `handle_append_entries`, on the log alone. -/
def mergeLog (log : List LogEntry) (entry : LogEntry) : List LogEntry :=
  match log[usizePred entry.index]? with
  | some own =>
      if own.term ≠ entry.term then log.take (usizePred entry.index) ++ [entry] else log
  | none => log ++ [entry]

/-- A merge writes the log and the log file only. -/
theorem mergeEntry_eq (n : RaftNode) (entry : LogEntry) :
    ∃ storage : RaftStorage, storage.metaFile = n.storage.metaFile ∧
      storage.snapshot = n.storage.snapshot ∧
      mergeEntry n entry = { n with storage := storage, log := mergeLog n.log entry } := by
  obtain ⟨hmeta, hsnap⟩ := appendWalLog_frame entry n.storage
  rw [mergeEntry, mergeLog]
  cases hown : n.log[usizePred entry.index]? with
  | none => exact ⟨_, hmeta, hsnap, rfl⟩
  | some own =>
    dsimp only
    split_ifs with hterm
    · exact ⟨_, hmeta, hsnap, rfl⟩
    · exact ⟨n.storage, rfl, rfl, rfl⟩

theorem foldl_mergeEntry_eq (entries : List LogEntry) :
    ∀ n : RaftNode, ∃ storage : RaftStorage, storage.metaFile = n.storage.metaFile ∧
      storage.snapshot = n.storage.snapshot ∧
      entries.foldl mergeEntry n =
        { n with storage := storage, log := entries.foldl mergeLog n.log } := by
  induction entries with
  | nil => exact fun n => ⟨n.storage, rfl, rfl, rfl⟩
  | cons entry entries ih =>
    intro n
    obtain ⟨storage, hmeta, hsnap, heq⟩ := mergeEntry_eq n entry
    obtain ⟨storage', hmeta', hsnap', heq'⟩ := ih (mergeEntry n entry)
    rw [heq] at hmeta' hsnap' heq'
    exact ⟨storage', hmeta'.trans hmeta, hsnap'.trans hsnap, by
      rw [List.foldl_cons, heq, heq', List.foldl_cons]⟩

/-! ## The handlers -/

/-- `save_meta` writes its file only. -/
theorem saveMeta_eq (n : RaftNode) :
    ∃ storage : RaftStorage, storage.wal = n.storage.wal ∧
      storage.snapshot = n.storage.snapshot ∧
      storage.walFaults = n.storage.walFaults ∧
      saveMeta n = { n with storage := storage } := by
  have hkeeps := fun {γ : Type} (f : RaftStorage → γ) hmeta hfaults =>
    RaftStorage.saveMeta_keeps (f := f) hmeta hfaults n.currentTerm n.voteFor n.storage
  exact ⟨_, hkeeps _ (fun _ _ => rfl) (fun _ _ => rfl), hkeeps _ (fun _ _ => rfl) (fun _ _ => rfl),
    hkeeps _ (fun _ _ => rfl) (fun _ _ => rfl), rfl⟩

/-- Adopting a term writes the term, the vote, the role and their file. -/
theorem stepDown_eq (term : Nat) (n : RaftNode) :
    ∃ storage : RaftStorage, storage.wal = n.storage.wal ∧
      storage.snapshot = n.storage.snapshot ∧
      storage.walFaults = n.storage.walFaults ∧
      stepDown term n =
        { n with
          storage := storage
          currentTerm := term
          state := .follower
          voteFor := none } := by
  obtain ⟨storage, hwal, hsnap, hfaults, heq⟩ :=
    saveMeta_eq { n with currentTerm := term, state := .follower, voteFor := none }
  exact ⟨storage, hwal, hsnap, hfaults, by rw [stepDown, heq]⟩

/-- A handler that met a term from its own on is in that term. -/
theorem adoptNewer_eq {term : Nat} {n : RaftNode} (hle : n.currentTerm ≤ term) :
    ∃ storage : RaftStorage, storage.wal = n.storage.wal ∧
      storage.snapshot = n.storage.snapshot ∧
      storage.walFaults = n.storage.walFaults ∧
      adoptNewer term n =
        { n with
          storage := storage
          currentTerm := term
          state := if n.currentTerm < term then .follower else n.state
          voteFor := if n.currentTerm < term then none else n.voteFor } := by
  rw [adoptNewer]
  split_ifs with hlt
  · exact stepDown_eq term n
  · obtain rfl : n.currentTerm = term := by omega
    exact ⟨n.storage, rfl, rfl, rfl, rfl⟩

/-- `handle_request_vote` refuses an old term, and otherwise adopts the term
and grants the vote when it may and the log of the candidate is up to date. -/
theorem handleRequestVote_cases (clock : Clock) (args : RequestVoteArgs) (n : RaftNode) :
    args.term < n.currentTerm ∧
        handleRequestVote clock args n =
          ({ term := n.currentTerm, voteGranted := false }, n) ∨
      n.currentTerm ≤ args.term ∧
        (((n.currentTerm < args.term ∨ n.voteFor = none ∨
              n.voteFor = some args.candidateId) ∧
            n.logUpToDate args.lastLogIndex args.lastLogTerm = true ∧
            ∃ storage : RaftStorage, storage.wal = n.storage.wal ∧
              storage.snapshot = n.storage.snapshot ∧
              storage.walFaults = n.storage.walFaults ∧
              handleRequestVote clock args n =
                ({ term := args.term, voteGranted := true },
                  { n with
                    storage := storage
                    currentTerm := args.term
                    state := if n.currentTerm < args.term then .follower else n.state
                    voteFor := some args.candidateId
                    lastHeartbeat := clock.now })) ∨
          handleRequestVote clock args n =
            ({ term := args.term, voteGranted := false }, adoptNewer args.term n)) := by
  by_cases hlt : args.term < n.currentTerm
  · exact Or.inl ⟨hlt, by rw [handleRequestVote, if_pos hlt]⟩
  · refine Or.inr ⟨Nat.not_lt.mp hlt, ?_⟩
    rw [handleRequestVote, if_neg hlt]
    obtain ⟨storage, hwal, hsnap, hfaults, heq⟩ := adoptNewer_eq (Nat.not_lt.mp hlt)
    by_cases hgrant : ((adoptNewer args.term n).voteFor.isNone ||
        (adoptNewer args.term n).voteFor == some args.candidateId) = true ∧
        (adoptNewer args.term n).logUpToDate args.lastLogIndex args.lastLogTerm = true
    · dsimp only
      rw [if_pos (Bool.and_eq_true .. ▸ hgrant)]
      rw [heq] at hgrant ⊢
      obtain ⟨hcan, hlog⟩ := hgrant
      refine Or.inl ⟨?_, hlog, ?_⟩
      · by_cases hnew : n.currentTerm < args.term
        · exact Or.inl hnew
        · rw [if_neg hnew, Bool.or_eq_true] at hcan
          exact Or.inr (hcan.imp Option.isNone_iff_eq_none.mp eq_of_beq)
      · obtain ⟨storage', hwal', hsnap', hfaults', heq'⟩ := saveMeta_eq
          { n with
            storage := storage
            currentTerm := args.term
            state := if n.currentTerm < args.term then .follower else n.state
            voteFor := some args.candidateId }
        exact ⟨storage', hwal'.trans hwal, hsnap'.trans hsnap, hfaults'.trans hfaults, by
          rw [heq']⟩
    · refine Or.inr ?_
      dsimp only
      rw [if_neg (fun h => hgrant (Bool.and_eq_true .. ▸ h)), heq]

theorem fastForwardCommit_eq (index : Nat) (n : RaftNode) :
    fastForwardCommit index n = n ∨ n.commitIndex < index ∧ index ≤ n.log.length ∧
      fastForwardCommit index n = { n with commitIndex := index } := by
  unfold fastForwardCommit
  split_ifs with hlt hle
  · exact Or.inr ⟨hlt, hle, rfl⟩
  · exact Or.inl rfl
  · exact Or.inl rfl

/-- `handle_tx_vote_request` steps down, or applies up to a commit index that
has not gone back. -/
theorem handleTxVoteRequest_extends (clock : Clock) (req : VoteRequest) (n : RaftNode) :
    n.currentTerm < req.term ∧ (handleTxVoteRequest clock req n).2 = stepDown req.term n ∨
      ∃ c, n.commitIndex ≤ c ∧
        Extends { n with commitIndex := c } (handleTxVoteRequest clock req n).2 := by
  have hforward : ∃ c, n.commitIndex ≤ c ∧
      fastForwardCommit req.lastLogIndex n = { n with commitIndex := c } := by
    rcases fastForwardCommit_eq req.lastLogIndex n with heq | ⟨hlt, -, heq⟩
    · exact ⟨n.commitIndex, le_rfl, heq⟩
    · exact ⟨_, hlt.le, heq⟩
  unfold handleTxVoteRequest
  dsimp only
  split_ifs with hold hnew
  · exact Or.inr ⟨n.commitIndex, le_rfl, Extends.refl n⟩
  · exact Or.inl ⟨hnew, rfl⟩
  · exact Or.inr ⟨n.commitIndex, le_rfl, Extends.refl n⟩
  all_goals
    obtain ⟨c, hle, heq⟩ := hforward
    refine Or.inr ⟨c, hle, ?_⟩
    rw [heq]
  · exact applyLogs_extends clock _
  · exact { applyLogs_extends clock { n with commitIndex := c } with }

/-! ## Elections -/

/-- A promotion writes the next term, the own vote, the role and their file. -/
theorem promoteToCandidate_eq (clock : Clock) (n : RaftNode) :
    ∃ storage : RaftStorage, storage.wal = n.storage.wal ∧
      storage.snapshot = n.storage.snapshot ∧
      storage.walFaults = n.storage.walFaults ∧
      promoteToCandidate clock n =
        { n with
          storage := storage
          currentTerm := u64Succ n.currentTerm
          state := .candidate
          voteFor := some n.nodeId
          lastHeartbeat := clock.now } := by
  obtain ⟨storage, hwal, hsnap, hfaults, heq⟩ := saveMeta_eq
    { n with
      currentTerm := u64Succ n.currentTerm
      state := .candidate
      voteFor := some n.nodeId }
  refine ⟨storage, hwal, hsnap, hfaults, ?_⟩
  unfold promoteToCandidate
  dsimp only
  rw [heq]

/-- Only the term, the vote, the role and what goes with the role have
changed. -/
def RoleMoved (n n' : RaftNode) : Prop :=
  ∃ storage : RaftStorage, storage.wal = n.storage.wal ∧
    storage.snapshot = n.storage.snapshot ∧
    storage.walFaults = n.storage.walFaults ∧
    ∃ term state vote heartbeat next, n' =
      { n with
        storage := storage
        currentTerm := term
        state := state
        voteFor := vote
        lastHeartbeat := heartbeat
        nextIndex := next }

theorem RoleMoved.refl (n : RaftNode) : RoleMoved n n :=
  ⟨n.storage, rfl, rfl, rfl, _, _, _, _, _, rfl⟩

theorem RoleMoved.trans {n n₁ n₂ : RaftNode} (h₁ : RoleMoved n n₁) (h₂ : RoleMoved n₁ n₂) :
    RoleMoved n n₂ := by
  obtain ⟨storage, hwal, hsnap, hfaults, _, _, _, _, _, rfl⟩ := h₁
  obtain ⟨storage', hwal', hsnap', hfaults', _, _, _, _, _, rfl⟩ := h₂
  exact ⟨storage', hwal'.trans hwal, hsnap'.trans hsnap, hfaults'.trans hfaults,
    _, _, _, _, _, rfl⟩

theorem stepDown_roleMoved (term : Nat) (n : RaftNode) : RoleMoved n (stepDown term n) := by
  obtain ⟨storage, hwal, hsnap, hfaults, heq⟩ := stepDown_eq term n
  exact ⟨storage, hwal, hsnap, hfaults, _, _, _, _, _, heq⟩

theorem adoptNewer_roleMoved (term : Nat) (n : RaftNode) : RoleMoved n (adoptNewer term n) := by
  unfold adoptNewer
  split_ifs
  · exact stepDown_roleMoved term n
  · exact .refl n

theorem promoteToCandidate_roleMoved (clock : Clock) (n : RaftNode) :
    RoleMoved n (promoteToCandidate clock n) := by
  obtain ⟨storage, hwal, hsnap, hfaults, heq⟩ := promoteToCandidate_eq clock n
  exact ⟨storage, hwal, hsnap, hfaults, _, _, _, _, _, heq⟩

theorem becomeLeader_roleMoved (clock : Clock) (n : RaftNode) :
    RoleMoved n (becomeLeader clock n) := by
  unfold becomeLeader
  split_ifs
  · exact .refl n
  · exact ⟨n.storage, rfl, rfl, rfl, _, _, _, _, _, rfl⟩

/-- What the calls of an election leave alone. -/
theorem step_roleMoved {n n' : RaftNode} {e : NodeEvent} (hstep : n.step e = some n')
    (he : e.MovesRole = true) : RoleMoved n n' := by
  cases e with
  | requestVote clock args =>
    obtain rfl := Option.some.inj hstep
    rcases handleRequestVote_cases clock args n with
      ⟨-, heq⟩ | ⟨-, ⟨-, -, storage, hwal, hsnap, hfaults, heq⟩ | heq⟩ <;> rw [heq]
    · exact .refl n
    · exact ⟨storage, hwal, hsnap, hfaults, _, _, _, _, _, rfl⟩
    · exact adoptNewer_roleMoved args.term n
  | preVote clock args =>
    obtain rfl := Option.some.inj hstep
    unfold handlePreVote
    dsimp only
    split_ifs <;> exact ⟨n.storage, rfl, rfl, rfl, _, _, _, _, _, rfl⟩
  | becomeCandidate clock =>
    obtain rfl := Option.some.inj hstep
    exact promoteToCandidate_roleMoved clock n
  | enterPreVote probedTerm =>
    obtain rfl := Option.some.inj hstep
    unfold enterPreVote
    split_ifs <;> exact ⟨n.storage, rfl, rfl, rfl, _, _, _, _, _, rfl⟩
  | preVoteAlone clock =>
    obtain rfl := Option.some.inj hstep
    have hpromote := promoteToCandidate_roleMoved clock n
    unfold preVoteAlone becomeLeaderChecked
    split_ifs
    · exact hpromote
    · exact hpromote.trans (becomeLeader_roleMoved clock _)
    · exact .refl n
  | preVoteStale =>
    obtain rfl := Option.some.inj hstep
    unfold preVoteStale
    split_ifs <;> exact ⟨n.storage, rfl, rfl, rfl, _, _, _, _, _, rfl⟩
  | preVoteQuorum clock =>
    obtain rfl := Option.some.inj hstep
    unfold preVoteQuorum
    split_ifs
    · exact .refl n
    · exact promoteToCandidate_roleMoved clock n
  | voteQuorum clock term =>
    obtain rfl := Option.some.inj hstep
    unfold voteQuorum
    split_ifs
    · exact becomeLeader_roleMoved clock n
    · exact .refl n
  | voteRefused term reply =>
    obtain rfl := Option.some.inj hstep
    unfold voteRefused
    split_ifs
    · exact stepDown_roleMoved reply.term n
    · exact .refl n
  | coordinatorStepDown leaderTerm resp =>
    obtain rfl := Option.some.inj hstep
    unfold coordinatorStepDown
    split_ifs
    · exact stepDown_roleMoved resp.term n
    · exact .refl n
    · exact .refl n
  | _ => cases he

/-! ## Following a leader -/

/-- `handle_append_entries` takes over the term of the leader. -/
theorem followLeader_eq (clock : Clock) {term : Nat} {n : RaftNode}
    (hle : n.currentTerm ≤ term) :
    ∃ storage : RaftStorage, storage.wal = n.storage.wal ∧
      storage.snapshot = n.storage.snapshot ∧
      storage.walFaults = n.storage.walFaults ∧
      followLeader clock term n =
        { n with
          storage := storage
          currentTerm := term
          voteFor := if n.currentTerm < term then none else n.voteFor
          state := .follower
          lastHeartbeat := clock.now } := by
  rw [followLeader]
  split_ifs with hlt
  · obtain ⟨storage, hwal, hsnap, hfaults, heq⟩ :=
      saveMeta_eq { n with currentTerm := term, voteFor := none }
    exact ⟨storage, hwal, hsnap, hfaults, by rw [heq]⟩
  · obtain rfl : n.currentTerm = term := by omega
    exact ⟨n.storage, rfl, rfl, rfl, rfl⟩

theorem followCommit_extends (clock : Clock) (leaderCommit : Nat) (n : RaftNode) :
    Extends { n with commitIndex := (followCommit clock leaderCommit n).commitIndex }
      (followCommit clock leaderCommit n) := by
  rw [followCommit]
  split_ifs with hlt
  · have h := applyLogs_extends clock { n with commitIndex := min leaderCommit n.log.length }
    rw [h.commitIndex]
    exact h
  · exact Extends.refl n

/-- `handle_append_entries` and `handle_install_snapshot` go past their first
two checks: the term is not old, and the node is not the leader of it. -/
def Accepts (n : RaftNode) (term : Nat) : Prop :=
  n.currentTerm ≤ term ∧ ¬(term = n.currentTerm ∧ n.state = .leader)

instance (n : RaftNode) (term : Nat) : Decidable (n.Accepts term) :=
  inferInstanceAs (Decidable (_ ∧ _))

/-- `handle_append_entries` refuses, follows the leader without taking its
entries, or merges them and follows its commit index. -/
theorem handleAppendEntries_cases (clock : Clock) (args : AppendEntriesArgs) (n : RaftNode) :
    ¬n.Accepts args.term ∧
        handleAppendEntries clock args n =
          ({ term := n.currentTerm, success := false }, n) ∨
      n.Accepts args.term ∧
        ((prevLogMatches args n = false ∧
            handleAppendEntries clock args n =
              ({ term := args.term, success := false }, followLeader clock args.term n)) ∨
          (prevLogMatches args n = true ∧
            handleAppendEntries clock args n =
              ({ term := args.term, success := true },
                followCommit clock args.leaderCommit
                  (args.entries.foldl mergeEntry (followLeader clock args.term n))))) := by
  rw [handleAppendEntries]
  split_ifs with hlt hsame
  · exact Or.inl ⟨fun h => absurd h.1 (Nat.not_le.mpr hlt), rfl⟩
  · exact Or.inl ⟨fun h => h.2 hsame, rfl⟩
  · refine Or.inr ⟨⟨Nat.not_lt.mp hlt, hsame⟩, ?_⟩
    obtain ⟨storage, -, -, -, hfollow⟩ := followLeader_eq clock (Nat.not_lt.mp hlt)
    have hprev : prevLogMatches args (followLeader clock args.term n) = prevLogMatches args n := by
      rw [hfollow]
      rfl
    dsimp only
    cases hp : prevLogMatches args n with
    | false =>
      refine Or.inl ⟨rfl, ?_⟩
      rw [if_pos (by rw [hprev, hp]; rfl), hfollow]
    | true =>
      refine Or.inr ⟨rfl, ?_⟩
      have hterm : (followCommit clock args.leaderCommit
          (args.entries.foldl mergeEntry (followLeader clock args.term n))).currentTerm =
            args.term := by
        rw [(followCommit_extends clock args.leaderCommit _).currentTerm]
        obtain ⟨storage', -, -, hmerge⟩ :=
          foldl_mergeEntry_eq args.entries (followLeader clock args.term n)
        rw [hmerge, hfollow]
      rw [if_neg (by rw [hprev, hp]; simp), hterm]

/-- `n'` follows the sender of a request of `term`. -/
structure Follows (term : Nat) (n n' : RaftNode) : Prop where
  le : n.currentTerm ≤ term
  currentTerm : n'.currentTerm = term
  voteFor : n'.voteFor = if n.currentTerm < term then none else n.voteFor
  state : n'.state = .follower
  nodeId : n'.nodeId = n.nodeId
  matchIndex : n'.matchIndex = n.matchIndex
  lastQuorumHeartbeatAt : n'.lastQuorumHeartbeatAt = n.lastQuorumHeartbeatAt

/-- A request that is not refused is followed, whatever becomes of its
entries. -/
theorem handleAppendEntries_follows (clock : Clock) (args : AppendEntriesArgs) (n : RaftNode) :
    (handleAppendEntries clock args n).2 = n ∨
      Follows args.term n (handleAppendEntries clock args n).2 := by
  rcases handleAppendEntries_cases clock args n with ⟨-, heq⟩ | ⟨⟨hle, -⟩, hcases⟩
  · exact Or.inl (by rw [heq])
  · obtain ⟨storage, -, -, -, hfollow⟩ := followLeader_eq clock hle
    rcases hcases with ⟨-, heq⟩ | ⟨-, heq⟩
    · rw [heq, hfollow]
      exact Or.inr ⟨hle, rfl, rfl, rfl, rfl, rfl, rfl⟩
    · obtain ⟨storage', -, -, hmerge⟩ :=
        foldl_mergeEntry_eq args.entries (followLeader clock args.term n)
      have h := followCommit_extends clock args.leaderCommit
        (args.entries.foldl mergeEntry (followLeader clock args.term n))
      rw [heq]
      refine Or.inr ⟨hle, h.currentTerm.trans ?_, h.voteFor.trans ?_, h.state.trans ?_,
        h.nodeId.trans ?_, h.matchIndex.trans ?_, h.lastQuorumHeartbeatAt.trans ?_⟩
      all_goals rw [hmerge, hfollow]

/-! ## Snapshots -/

/-- A leader takes no snapshot, or it flattens its store and tries to save the
result at its commit index. -/
theorem maybeSnapshot_cases {thresholdBytes : Nat} {n : RaftNode} {r : Bool × RaftNode}
    (h : maybeSnapshot thresholdBytes n = some r) :
    r = (false, n) ∨
      n.commitIndex ≠ 0 ∧ ∃ data storage, n.stateMachine.snapshotData = .ok data ∧
        r.2 = { n with storage := storage } ∧
        (r.1 = true ∧ storage.snapshot = some
            { lastIncludedIndex := n.commitIndex
              lastIncludedTerm := ((n.log[n.commitIndex - 1]?).map LogEntry.term).getD 0
              data := data } ∨
          r.1 = false ∧ storage.snapshot = n.storage.snapshot) := by
  rw [maybeSnapshot] at h
  split_ifs at h with hs hsize hzero
  · exact Or.inl (Option.some.inj h).symm
  · exact Or.inl (Option.some.inj h).symm
  · exact Or.inl (Option.some.inj h).symm
  · refine Or.inr ⟨hzero, ?_⟩
    dsimp only at h
    split at h
    · cases h
    · rename_i data hdata
      rcases RaftStorage.saveSnapshot_cases
          { lastIncludedIndex := n.commitIndex
            lastIncludedTerm := ((n.log[n.commitIndex - 1]?).map LogEntry.term).getD 0
            data := data } n.storage with ⟨storage, heq, hsaved⟩ | ⟨e, storage, heq, hkept⟩
      · rw [heq] at h
        obtain rfl := Option.some.inj h
        have hkeep : (RaftStorage.rewriteWalAfterSnapshot n.commitIndex storage).2.snapshot =
            storage.snapshot :=
          RaftStorage.rewriteWalAfterSnapshot_keeps (fun _ _ => rfl) (fun _ _ => rfl) _ storage
        exact ⟨data, _, hdata, rfl, Or.inl ⟨rfl, hkeep.trans hsaved⟩⟩
      · rw [heq] at h
        obtain rfl := Option.some.inj h
        exact ⟨data, _, hdata, rfl, Or.inr ⟨rfl, hkept⟩⟩

/-- `handle_install_snapshot` refuses, or it follows the sender and puts the
snapshot in the place of the entries that it covers. -/
theorem handleInstallSnapshot_cases {clock : Clock} {args : InstallSnapshotArgs} {n : RaftNode}
    {r : InstallSnapshotReplyArgs × RaftNode} (h : handleInstallSnapshot clock args n = some r) :
    ¬n.Accepts args.term ∧ r.2 = n ∨
      n.Accepts args.term ∧ ∃ sm, r.2 =
        { adoptNewer args.term n with
          state := .follower
          lastHeartbeat := clock.now
          stateMachine := sm
          log := (adoptNewer args.term n).log.filter (fun e => args.lastIncludedIndex < e.index)
          storage := (RaftStorage.rewriteWalAfterSnapshot args.lastIncludedIndex
            (RaftStorage.saveSnapshot args.snapshot (adoptNewer args.term n).storage).2).2
          commitIndex := max (adoptNewer args.term n).commitIndex args.lastIncludedIndex
          lastApplied := max (adoptNewer args.term n).lastApplied args.lastIncludedIndex } := by
  rw [handleInstallSnapshot] at h
  split_ifs at h with hlt hsame
  · obtain rfl := Option.some.inj h
    exact Or.inl ⟨fun hacc => absurd hacc.1 (Nat.not_le.mpr hlt), rfl⟩
  · obtain rfl := Option.some.inj h
    exact Or.inl ⟨fun hacc => hacc.2 hsame, rfl⟩
  · refine Or.inr ⟨⟨Nat.not_lt.mp hlt, hsame⟩, ?_⟩
    dsimp only at h
    split at h
    · cases h
    · obtain rfl := Option.some.inj h
      exact ⟨_, rfl⟩

/-! ## Start of the process -/

theorem replayCommand_eq (unixMs : Nat) (command : Command) (n : RaftNode) :
    ∃ sm config peers, replayCommand unixMs command n =
      { n with stateMachine := sm, currentConfig := config, peers := peers } := by
  cases command <;> exact ⟨_, _, _, rfl⟩

/-- `replay_logs` writes the state machine, the configuration and
`lastApplied` only. -/
theorem replayLogs_eq (clock : Clock) (n : RaftNode) :
    ∃ sm config peers, replayLogs clock n =
      { n with
        stateMachine := sm
        currentConfig := config
        peers := peers
        lastApplied := n.log.length } := by
  have hfold : ∀ (entries : List (LogEntry × Nat)) (n : RaftNode),
      ∃ sm config peers,
        entries.foldl (fun n e => replayCommand (clock.unixMs e.2) e.1.command n) n =
          { n with stateMachine := sm, currentConfig := config, peers := peers } := by
    intro entries
    induction entries with
    | nil => exact fun n => ⟨n.stateMachine, n.currentConfig, n.peers, rfl⟩
    | cons e entries ih =>
      intro n
      obtain ⟨sm₁, config₁, peers₁, heq₁⟩ := replayCommand_eq (clock.unixMs e.2) e.1.command n
      obtain ⟨sm, config, peers, heq⟩ := ih (replayCommand (clock.unixMs e.2) e.1.command n)
      exact ⟨sm, config, peers, by rw [List.foldl_cons, heq, heq₁]⟩
  obtain ⟨sm, config, peers, heq⟩ := hfold n.log.zipIdx n
  exact ⟨sm, config, peers, by rw [replayLogs, heq]⟩

/-- `restore_from_snapshot` writes the state machine and the two indices, and
nothing when there is no snapshot. -/
theorem restoreFromSnapshot_eq {n r : RaftNode} (h : restoreFromSnapshot n = some r) :
    (n.storage.snapshot = none → r = n) ∧
      ∃ sm commitIndex lastApplied,
        r = { n with
          stateMachine := sm
          commitIndex := commitIndex
          lastApplied := lastApplied } := by
  rw [restoreFromSnapshot, RaftStorage.loadSnapshot] at h
  cases hsnap : n.storage.snapshot with
  | none =>
    rw [hsnap] at h
    obtain rfl : n = r := Option.some.inj h
    exact ⟨fun _ => rfl, n.stateMachine, n.commitIndex, n.lastApplied, rfl⟩
  | some snap =>
    rw [hsnap] at h
    dsimp only at h
    split at h
    · cases h
    · obtain rfl := Option.some.inj h
      exact ⟨fun hc => (by cases hc), _, _, _, rfl⟩

/-- What a restart takes from the disk, and what it starts over. -/
theorem restart_eq {raftAddr : String} {peers : List String} {clock : Clock} {n r : RaftNode}
    (h : restart raftAddr peers clock n = some r) :
    r.log = n.storage.restoreWalLog ∧ r.storage = n.storage ∧ r.nodeId = raftAddr ∧
      r.currentTerm = n.storage.readMeta.1 ∧ r.voteFor = n.storage.readMeta.2 ∧
      r.lastApplied = n.storage.wal.length ∧
      (n.storage.snapshot = none → r.commitIndex = 0) := by
  rw [restart] at h
  split at h
  · cases h
  · rename_i sm hopen
    obtain ⟨n₁, hrestore, rfl⟩ := Option.map_eq_some_iff.mp h
    obtain ⟨smr, config, peers', hreplay⟩ := replayLogs_eq clock n₁
    obtain ⟨hnone, sm₁, commitIndex, lastApplied, hr⟩ := restoreFromSnapshot_eq hrestore
    rw [hreplay]
    split_ifs at hr hnone with hpeers
    · rw [hr]
      refine ⟨rfl, rfl, rfl, rfl, rfl, rfl, fun hsnap => ?_⟩
      have := congrArg RaftNode.commitIndex (hr.symm.trans (hnone hsnap))
      exact this
    · rw [hr]
      refine ⟨rfl, rfl, rfl, rfl, rfl, rfl, fun hsnap => ?_⟩
      have := congrArg RaftNode.commitIndex (hr.symm.trans (hnone hsnap))
      exact this

end RaftNode

end OxideKv
