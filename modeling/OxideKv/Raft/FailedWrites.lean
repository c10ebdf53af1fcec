import OxideKv.Raft.Applying
import OxideKv.StateMachine.FaultyStore

/-!
# Writes that fail

Two callers go on after a file operation has failed.

`propose_batch` appends its entries one at a time, to the log file and then to
the log, and returns `false` at the first failure.  What it has appended by
then stays.  `proposeBatch_traceless_iff` says when that is nothing.

`apply_logs` drops the results of the state machine and moves `last_applied`
on.  `applyLogs_performs` says what becomes of the store, whatever fails, and
`applied_in_full_iff` when the contents are those of the applied entries.
-/

namespace OxideKv

open Fallible LastWrite StateMachine

/-! ## A batch -/

namespace RaftStorage

/-- The log file cannot be opened, or the next record cannot be written. -/
def NextWriteFails (s : RaftStorage) : Prop := true ∈ s.walFaults.take 2

instance (s : RaftStorage) : Decidable s.NextWriteFails :=
  inferInstanceAs (Decidable (_ ∈ _))

/-- A record is in the log file from the write on, also when the `sync_all`
after it fails. -/
theorem appendWalLog_cases (entry : LogEntry) (s : RaftStorage) :
    ∃ rest, (s.NextWriteFails ∧
        appendWalLog entry s = (.error .fault, { s with walFaults := rest })) ∨
      (¬s.NextWriteFails ∧ ∃ r,
        appendWalLog entry s =
          (r, { s with wal := s.wal ++ [entry], walFaults := rest })) := by
  obtain ⟨wal, metaFile, snap, faults, metaFaults⟩ := s
  match faults with
  | [] => exact ⟨[], Or.inr ⟨by simp [NextWriteFails], _, rfl⟩⟩
  | true :: rest => exact ⟨rest, Or.inl ⟨by simp [NextWriteFails], rfl⟩⟩
  | [false] => exact ⟨[], Or.inr ⟨by simp [NextWriteFails], _, rfl⟩⟩
  | false :: true :: rest => exact ⟨rest, Or.inl ⟨by simp [NextWriteFails], rfl⟩⟩
  | [false, false] => exact ⟨[], Or.inr ⟨by simp [NextWriteFails], _, rfl⟩⟩
  | false :: false :: false :: rest => exact ⟨rest, Or.inr ⟨by simp [NextWriteFails], _, rfl⟩⟩
  | false :: false :: true :: rest => exact ⟨rest, Or.inr ⟨by simp [NextWriteFails], _, rfl⟩⟩

end RaftStorage

namespace RaftNode

theorem appendEntry_fails {n : RaftNode} (h : n.storage.NextWriteFails) (entry : LogEntry) :
    ∃ rest, appendEntry entry n =
      (.error .fault, { n with storage := { n.storage with walFaults := rest } }) := by
  obtain ⟨rest, ⟨-, heq⟩ | ⟨hnot, -⟩⟩ := RaftStorage.appendWalLog_cases entry n.storage
  · exact ⟨rest, by rw [appendEntry, heq]⟩
  · exact absurd h hnot

theorem appendEntry_wal {n : RaftNode} (h : ¬n.storage.NextWriteFails) (entry : LogEntry) :
    (appendEntry entry n).2.storage.wal = n.storage.wal ++ [entry] := by
  obtain ⟨rest, ⟨hfails, -⟩ | ⟨-, r, heq⟩⟩ := RaftStorage.appendWalLog_cases entry n.storage
  · exact absurd hfails h
  · rw [appendEntry, heq]
    cases r <;> rfl

theorem appendEntry_wal_prefix (n : RaftNode) (entry : LogEntry) :
    n.storage.wal <+: (appendEntry entry n).2.storage.wal := by
  by_cases h : n.storage.NextWriteFails
  · obtain ⟨rest, heq⟩ := appendEntry_fails h entry
    rw [heq]
  · rw [appendEntry_wal h]
    exact List.prefix_append _ _

/-- Nothing that is in the log file is taken back. -/
theorem proposeBatchFrom_wal_prefix (commands : List Command) :
    ∀ (index : Nat) (n : RaftNode),
      n.storage.wal <+: (proposeBatchFrom index commands n).2.storage.wal := by
  induction commands with
  | nil => exact fun _ _ => List.prefix_refl _
  | cons command rest ih =>
    intro index n
    have hfirst := appendEntry_wal_prefix n
      { term := n.currentTerm, index := index, command := command }
    rw [proposeBatchFrom]
    split
    · rename_i heq
      rw [heq] at hfirst
      exact hfirst.trans (ih _ _)
    · rename_i heq
      rw [heq] at hfirst
      exact hfirst

theorem proposeBatchFrom_cons_wal_prefix (index : Nat) (command : Command) (rest : List Command)
    (n : RaftNode) :
    (appendEntry { term := n.currentTerm, index := index, command := command } n).2.storage.wal <+:
      (proposeBatchFrom index (command :: rest) n).2.storage.wal := by
  rw [proposeBatchFrom]
  split
  · rename_i happend
    rw [happend]
    exact proposeBatchFrom_wal_prefix rest _ _
  · rename_i happend
    rw [happend]

/-- A batch that fails leaves no trace in the log and in the log file exactly
when the failure comes before the first record is written.  The node is then
as it was, and only the outcomes of the device have moved on. -/
theorem proposeBatch_traceless_iff {n : RaftNode} (hs : n.state = .leader)
    {commands : List Command} (hfails : (proposeBatch commands n).1 = false) :
    ((proposeBatch commands n).2.log = n.log ∧
        (proposeBatch commands n).2.storage.restoreWalLog = n.storage.restoreWalLog ↔
      n.storage.NextWriteFails) ∧
    (n.storage.NextWriteFails → ∃ rest, (proposeBatch commands n).2 =
      { n with storage := { n.storage with walFaults := rest } }) := by
  have heq : proposeBatch commands n = proposeBatchFrom (n.log.length + 1) commands n := by
    rw [proposeBatch, if_neg (not_not.mpr hs)]
  rw [heq] at hfails ⊢
  cases commands with
  | nil => cases hfails
  | cons command rest =>
    have hfailing : n.storage.NextWriteFails → ∃ rest',
        (proposeBatchFrom (n.log.length + 1) (command :: rest) n).2 =
          { n with storage := { n.storage with walFaults := rest' } } := by
      intro hnext
      obtain ⟨rest', happend⟩ := appendEntry_fails hnext (n.nextEntry command)
      refine ⟨rest', ?_⟩
      rw [proposeBatchFrom, ← nextEntry, happend]
    refine ⟨⟨fun htraceless => ?_, fun hnext => ?_⟩, hfailing⟩
    · by_contra hnext
      -- the first record is in the file, and nothing takes it back
      have hfirst := appendEntry_wal hnext (n.nextEntry command)
      have hgrows : (appendEntry (n.nextEntry command) n).2.storage.wal <+:
          (proposeBatchFrom (n.log.length + 1) (command :: rest) n).2.storage.wal :=
        proposeBatchFrom_cons_wal_prefix (n.log.length + 1) command rest n
      have hlen := hgrows.length_le
      have hsame := congrArg List.length htraceless.2
      rw [hfirst, List.length_append, List.length_singleton] at hlen
      rw [RaftStorage.restoreWalLog, RaftStorage.restoreWalLog] at hsame
      omega
    · obtain ⟨rest', hnode⟩ := hfailing hnext
      rw [hnode]
      exact ⟨rfl, rfl⟩

/-- A node without peers that leads, over a log file with the given outcomes
to come. -/
def standalone (walFaults : List Bool) : RaftNode :=
  { freshNode "a" [] with
    state := .leader
    storage := { RaftStorage.empty with walFaults := walFaults } }

/-- The batch of `single_node_fast_path` for a transaction that sets `x`. -/
def batchOfX : List Command := [.beginTx "t" [.put "x" "1"], .decideTx "t" .commit]

/-- The first record cannot be written. -/
theorem proposeBatch_traceless_first :
    (proposeBatch batchOfX (standalone [false, true])).2.log = [] ∧
      (proposeBatch batchOfX (standalone [false, true])).2.storage.restoreWalLog = [] :=
  (proposeBatch_traceless_iff (n := standalone [false, true]) rfl (by decide)).1.mpr (by decide)

/-- The last `sync_all` fails. -/
def lastSyncFails : RaftNode := standalone [false, false, false, false, false, true]

/-- The call reports that the transaction was not performed, and after the next
start it is. -/
theorem failed_batch_is_performed :
    lastSyncFails.state = .leader ∧ lastSyncFails.log = [] ∧
      (proposeBatch batchOfX lastSyncFails).1 = false ∧
      (((TxCall.begin "a" "t" [.put "x" "1"] lastSyncFails).resume false lastSyncFails).map
        TxTurn.phase) = some (.done (.notLeader "t")) ∧
      (proposeBatch batchOfX lastSyncFails).2.log.map LogEntry.command =
        [.beginTx "t" [.put "x" "1"]] ∧
      (proposeBatch batchOfX lastSyncFails).2.storage.restoreWalLog.map LogEntry.command =
        batchOfX ∧
      ((restart "a" [] someClock (proposeBatch batchOfX lastSyncFails).2).map fun n =>
        n.stateMachine.get "x") = some (some "1") := by
  decide +kernel

/-! ## Applying -/

/-- `sm'` is `sm` after the commands, each of whose writes was tried. -/
structure Performs (cs : List Command) (sm sm' : StateMachine) : Prop where
  staged : sm'.staged = logStaged sm.staged cs
  store : sm' = withPending sm'.pendingTxs (writeRows (logWrites sm.staged cs) sm)

theorem Performs.nil (sm : StateMachine) : Performs [] sm sm := ⟨rfl, rfl⟩

theorem Performs.trans {cs ds : List Command} {sm sm₁ sm₂ : StateMachine}
    (h : Performs cs sm sm₁) (h' : Performs ds sm₁ sm₂) : Performs (cs ++ ds) sm sm₂ := by
  refine ⟨?_, ?_⟩
  · rw [h'.staged, h.staged, logStaged_append]
  · have hsecond : writeRows (logWrites sm₁.staged ds) sm₁ =
        withPending sm₁.pendingTxs
          (writeRows (logWrites (logStaged sm.staged cs) ds)
            (writeRows (logWrites sm.staged cs) sm)) := by
      rw [h.staged]
      conv_lhs => rw [h.store]
      rw [writeRows_pending]
    conv_lhs => rw [h'.store]
    rw [hsecond, logWrites_append, writeRows_append]
    rfl

/-- A command on the store, whatever fails. -/
theorem applyToStore_performs {sm : StateMachine} (h : Live sm) (unixMs : Nat) (c : Command) :
    Performs [c] sm (applyToStore unixMs c sm).2 := by
  have hwrites : logWrites sm.staged [c] = c.writes sm.staged := by
    rw [logWrites, logWrites, List.append_nil]
  cases c with
  | set key value =>
    obtain ⟨-, hp, -⟩ := writeRow_view h (key, some value)
    exact ⟨staged_congr hp, rfl⟩
  | delete key =>
    obtain ⟨-, hp, -⟩ := writeRow_view h (key, none)
    exact ⟨staged_congr hp, rfl⟩
  | beginTx txId ops => exact ⟨staged_insert sm txId _, rfl⟩
  | decideTx txId decision =>
    show Performs _ sm (decideTx txId decision sm).2
    rw [decideTx, bind_getThe]
    cases htx : sm.pendingTxs[txId]? with
    | none =>
      have hnone : (Command.decideTx txId decision).writes sm.staged = [] := by
        show decisionWrites ((sm.pendingTxs[txId]?).map PendingTx.ops) decision = []
        rw [htx]
        cases decision <;> rfl
      refine ⟨staged_absent htx, ?_⟩
      rw [hwrites, hnone]
      rfl
    | some tx =>
      dsimp only
      rw [bind_modify]
      cases decision with
      | abort => exact ⟨staged_erase sm txId, rfl⟩
      | commit =>
        have hops : (Command.decideTx txId .commit).writes sm.staged = tx.ops.map txOpWrite := by
          show decisionWrites ((sm.pendingTxs[txId]?).map PendingTx.ops) .commit = _
          rw [htx]
          rfl
        dsimp only
        rw [forM_applyTxOp]
        dsimp only
        rw [show ({ sm with pendingTxs := sm.pendingTxs.erase txId } : StateMachine) =
          withPending (sm.pendingTxs.erase txId) sm from rfl, writeRows_pending]
        refine ⟨?_, ?_⟩
        · exact (staged_congr rfl).trans (staged_erase sm txId)
        · rw [hwrites, hops]
          rfl
  | _ => exact ⟨rfl, rfl⟩

theorem applyCommand_performs {n : RaftNode} (h : Live n.stateMachine) (unixMs : Nat)
    (c : Command) : Performs [c] n.stateMachine (applyCommand unixMs c n).stateMachine := by
  cases c with
  | installConfiguration config =>
    show Performs _ _ (installConfiguration config n).stateMachine
    rw [(installConfiguration_store config n).1]
    exact ⟨rfl, rfl⟩
  | _ => exact applyToStore_performs h unixMs _

/-- What the writes that survive leave. -/
theorem Performs.view {cs : List Command} {sm sm' : StateMachine} (h : Performs cs sm sm')
    (hlive : Live sm) :
    Live sm' ∧ ∀ key, sm'.shown key =
      lastWrite (sm.liveTrace ++ surviving (logWrites sm.staged cs)
        (appendFailures (logWrites sm.staged cs) sm)) key := by
  obtain ⟨hlive', -, hshown⟩ := writeRows_view (logWrites sm.staged cs) hlive
  rw [h.store]
  exact ⟨⟨hlive'.load, hlive'.rows, hlive'.next⟩, hshown⟩

/-- The loop of `apply_logs` tries every write of the entries it passes. -/
theorem applyLoop_performs (clock : Clock) (fuel : Nat) :
    ∀ {n : RaftNode}, Live n.stateMachine →
      Performs ((between n.lastApplied (applyLoop clock fuel n).lastApplied
          (applyLoop clock fuel n).log).map LogEntry.command)
        n.stateMachine (applyLoop clock fuel n).stateMachine := by
  induction fuel with
  | zero =>
    intro n _
    rw [applyLoop, between_self]
    exact Performs.nil _
  | succ fuel ih =>
    intro n hlive
    rw [applyLoop]
    split_ifs with hlt
    · cases hget : n.log[n.lastApplied]? with
      | none =>
        dsimp only
        rw [between_self]
        exact Performs.nil _
      | some entry =>
        dsimp only
        have hfirst := applyCommand_performs hlive (clock.unixMs n.lastApplied) entry.command
        have hext := applyCommand_extends (clock.unixMs n.lastApplied) entry.command n
        have hla := applyCommand_lastApplied (clock.unixMs n.lastApplied) entry.command n
        generalize applyCommand (clock.unixMs n.lastApplied) entry.command n = n₁ at *
        have hrest := @ih { n₁ with lastApplied := n₁.lastApplied + 1 } (hfirst.view hlive).1
        have hle := (applyLoop_consumes clock fuel
          { n₁ with lastApplied := n₁.lastApplied + 1 }).applied
        obtain ⟨es, hlog, -⟩ := hext.appended
        obtain ⟨es', hlog', -⟩ := (applyLoop_extends clock fuel
          { n₁ with lastApplied := n₁.lastApplied + 1 }).appended
        generalize applyLoop clock fuel { n₁ with lastApplied := n₁.lastApplied + 1 } = n' at *
        have hin := (List.getElem?_eq_some_iff.mp hget).1
        have hget' : n'.log[n.lastApplied]? = some entry := by
          rw [hlog', hlog, List.append_assoc, List.getElem?_append_left hin, hget]
        dsimp only at hrest hle
        rw [hla] at hrest hle
        rw [between_cons (by omega) hget', List.map_cons]
        exact hfirst.trans hrest
    · rw [between_self]
      exact Performs.nil _

theorem applyLogs_performs (clock : Clock) {n : RaftNode} (h : Live n.stateMachine) :
    Performs ((between n.lastApplied (applyLogs clock n).lastApplied
        (applyLogs clock n).log).map LogEntry.command)
      n.stateMachine (applyLogs clock n).stateMachine :=
  applyLoop_performs clock _ h

/-! ## The applied entries -/

/-- The effect of the first `last_applied` entries: what `snapshot_data` reads
is their last write to each key. -/
def InFull (n : RaftNode) : Prop :=
  ∃ data, n.stateMachine.snapshotData = .ok data ∧ ∀ key, data[key]? =
    lastWrite (logWrites Staged.none ((n.log.take n.lastApplied).map LogEntry.command)) key

/-- What holds of a node whatever fails: its tables load, the transactions in
flight are those of the applied entries, and these are in the log. -/
structure Applying (n : RaftNode) : Prop where
  live : Live n.stateMachine
  staged : n.stateMachine.staged =
    logStaged Staged.none ((n.log.take n.lastApplied).map LogEntry.command)
  inLog : n.lastApplied ≤ n.log.length

/-- Entries come in, the commit index moves inside the log, and `apply_logs`
runs. -/
structure ApplyCall where
  clock : Clock
  appended : List LogEntry
  commitIndex : Nat

/-- The node when `apply_logs` begins. -/
def ApplyCall.committed (n : RaftNode) (c : ApplyCall) : RaftNode :=
  { n with
    log := n.log ++ c.appended
    commitIndex := min c.commitIndex (n.log ++ c.appended).length }

def applyCall (n : RaftNode) (c : ApplyCall) : RaftNode := applyLogs c.clock (c.committed n)

/-- The commands that the call applies. -/
def ApplyCall.commands (n : RaftNode) (c : ApplyCall) : List Command :=
  (between n.lastApplied c.commitIndex (n.log ++ c.appended)).map LogEntry.command

/-- The writes of the call. -/
def ApplyCall.writes (n : RaftNode) (c : ApplyCall) : List (String × Option String) :=
  logWrites n.stateMachine.staged (c.commands n)

/-- No key misses a write: the last write of the call to it whose `append_wal`
does not fail leaves what the last one leaves. -/
def ApplyCall.LosesNothing (n : RaftNode) (c : ApplyCall) : Prop :=
  ∀ key,
    (record (surviving (c.writes n) (appendFailures (c.writes n) n.stateMachine)) key).getD
        (n.stateMachine.shown key) =
      (record (c.writes n) key).getD (n.stateMachine.shown key)

/-- The call applies its commands and nothing else. -/
theorem applyCall_performs {n : RaftNode} (h : Applying n) (c : ApplyCall) :
    Performs (c.commands n) n.stateMachine (applyCall n c).stateMachine ∧
      (applyCall n c).lastApplied ≤ (applyCall n c).log.length ∧
      ((applyCall n c).log.take (applyCall n c).lastApplied).map LogEntry.command =
        (n.log.take n.lastApplied).map LogEntry.command ++ c.commands n := by
  have hlen : (n.log ++ c.appended).length = n.log.length + c.appended.length :=
    List.length_append
  have hin := h.inLog
  have hla : (applyCall n c).lastApplied =
      max n.lastApplied (min c.commitIndex (n.log ++ c.appended).length) :=
    applyLogs_lastApplied c.clock (Nat.min_le_right _ _)
  have hperf : Performs _ n.stateMachine (applyCall n c).stateMachine :=
    applyLogs_performs c.clock (n := c.committed n) h.live
  obtain ⟨es, hlog, -⟩ := (applyLogs_extends c.clock (c.committed n)).appended
  have hlog : (applyCall n c).log = n.log ++ c.appended ++ es := hlog
  -- the entries that are passed are those that were committed
  have hbetween : between n.lastApplied (applyCall n c).lastApplied (applyCall n c).log =
      between n.lastApplied c.commitIndex (n.log ++ c.appended) := by
    have hbelow : n.log ++ c.appended <+: (applyCall n c).log := ⟨es, hlog.symm⟩
    rw [between_of_isPrefix hbelow (by rw [hla]; omega), hla]
    rcases Nat.le_total c.commitIndex n.lastApplied with hle | hle
    · rw [Nat.max_eq_left (by omega), between_self, between, List.drop_of_length_le]
      rw [List.length_take]
      omega
    · rw [Nat.max_eq_right (by omega)]
      unfold between
      rw [← List.take_take, List.take_length]
  refine ⟨?_, ?_, ?_⟩
  · rw [ApplyCall.commands, ← hbetween]
    exact hperf
  · have hlen' := congrArg List.length hlog
    rw [List.length_append] at hlen'
    omega
  · have hle : n.lastApplied ≤ (applyCall n c).lastApplied := hla ▸ Nat.le_max_left _ _
    have hsplit := between_append (applyCall n c).log (Nat.zero_le n.lastApplied) hle
    have hfirst : (applyCall n c).log.take n.lastApplied = n.log.take n.lastApplied := by
      rw [hlog, List.append_assoc, List.take_append_of_le_length hin]
    rw [hbetween] at hsplit
    unfold between at hsplit
    rw [List.drop_zero, List.drop_zero, hfirst] at hsplit
    rw [hsplit, List.map_append]
    rfl

theorem Applying.applyCall {n : RaftNode} (h : Applying n) (c : ApplyCall) :
    Applying (applyCall n c) := by
  obtain ⟨hperf, hin, hcommands⟩ := applyCall_performs h c
  refine ⟨(hperf.view h.live).1, ?_, hin⟩
  rw [hperf.staged, hcommands, h.staged, logStaged_append]

/-- The contents are what the store shows. -/
theorem inFull_iff {n : RaftNode} (h : Live n.stateMachine) :
    InFull n ↔ ∀ key, n.stateMachine.shown key =
      lastWrite (logWrites Staged.none ((n.log.take n.lastApplied).map LogEntry.command)) key := by
  obtain ⟨data, heq, hdata⟩ := h.snapshotData
  constructor
  · rintro ⟨data', heq', hdata'⟩ key
    obtain rfl : data = data' := Except.ok.inj (heq.symm.trans heq')
    rw [← hdata key, hdata' key]
  · intro hshown
    exact ⟨data, heq, fun key => (hdata key).trans (hshown key)⟩

/-- One call on a node whose contents are those of its applied entries. -/
theorem applyCall_inFull_iff {n : RaftNode} (h : Applying n) (hfull : InFull n)
    (c : ApplyCall) : InFull (applyCall n c) ↔ c.LosesNothing n := by
  obtain ⟨hperf, -, hcommands⟩ := applyCall_performs h c
  obtain ⟨hlive, hshown⟩ := hperf.view h.live
  rw [inFull_iff h.live] at hfull
  rw [inFull_iff hlive, hcommands, logWrites_append, ← h.staged]
  refine forall_congr' fun key => ?_
  rw [hshown key, lastWrite_append, lastWrite_append, ← hfull key]
  rfl

theorem foldl_applying {n : RaftNode} (h : Applying n) (calls : List ApplyCall) :
    Applying (calls.foldl applyCall n) := by
  induction calls generalizing n with
  | nil => exact h
  | cons c calls ih => exact ih (h.applyCall c)

/-- Committed entries are applied in full throughout a run of `apply_logs`
exactly when no call loses a write. -/
theorem applied_in_full_iff {n : RaftNode} (h : Applying n) (hfull : InFull n)
    (calls : List ApplyCall) :
    (∀ before, before <+: calls → InFull (before.foldl applyCall n)) ↔
      ∀ before c, before ++ [c] <+: calls → c.LosesNothing (before.foldl applyCall n) := by
  constructor
  · intro hrun before c hprefix
    have hafter := hrun _ hprefix
    rw [List.foldl_append] at hafter
    have hbefore := hrun before ((List.prefix_append _ _).trans hprefix)
    exact (applyCall_inFull_iff (foldl_applying h before) hbefore c).mp hafter
  · intro hrun before
    induction before using List.reverseRecOn with
    | nil => exact fun _ => hfull
    | append_singleton before c ih =>
      intro hprefix
      have hbefore := ih ((List.prefix_append _ _).trans hprefix)
      rw [List.foldl_append]
      exact (applyCall_inFull_iff (foldl_applying h before) hbefore c).mpr (hrun before c hprefix)

/-- A node that starts on an empty directory with the given threshold of the
memtable and outcomes of the file operations to come. -/
def startsWith (log : List LogEntry) (threshold : Nat) (faults : List Bool) : RaftNode :=
  { freshNode "a" [] with
    log := log
    stateMachine :=
      { freshStore with
        memtableSizeThreshold := threshold
        disk := { Disk.empty with faults := faults } } }

theorem startsWith_applying (log : List LogEntry) (threshold : Nat) (faults : List Bool) :
    Applying (startsWith log threshold faults) ∧ InFull (startsWith log threshold faults) := by
  have hlive : Live (startsWith log threshold faults).stateMachine :=
    ⟨fun _ h => absurd h List.not_mem_nil, fun _ h => absurd h List.not_mem_nil,
      fun _ h => absurd h List.not_mem_nil⟩
  exact ⟨⟨hlive, staged_of_empty rfl, Nat.zero_le _⟩, (inFull_iff hlive).mpr fun _ => rfl⟩

/-- The flush of a `Set` fails. -/
def flushFails : RaftNode :=
  startsWith [{ term := 1, index := 1, command := .set "x" "1" }] 1 [false, false, true]

theorem applied_in_full_flush_fails :
    InFull (applyCall flushFails { clock := someClock, appended := [], commitIndex := 1 }) := by
  obtain ⟨happlying, hfull⟩ := startsWith_applying
    [{ term := 1, index := 1, command := .set "x" "1" }] 1 [false, false, true]
  refine (applied_in_full_iff happlying hfull
    [{ clock := someClock, appended := [], commitIndex := 1 }]).mpr ?_ [_] (List.prefix_refl _)
  intro before c hprefix
  have hlen := hprefix.length_le
  rw [List.length_append, List.length_singleton, List.length_singleton] at hlen
  obtain rfl : before = [] := List.length_eq_zero_iff.mp (by omega)
  obtain rfl := (List.cons_prefix_cons.mp hprefix).1
  intro key
  rfl

/-- The first `append_wal` of a committed transaction of two writes fails. -/
def firstAppendFails : RaftNode :=
  startsWith
    [{ term := 1, index := 1, command := .beginTx "t" [.put "x" "1", .put "y" "2"] },
      { term := 1, index := 2, command := .decideTx "t" .commit }] 4096 [true]

/-- The transaction counts as applied and has taken effect by half. -/
theorem transaction_applied_by_half :
    (applyCall firstAppendFails
        { clock := someClock, appended := [], commitIndex := 2 }).lastApplied = 2 ∧
      (applyCall firstAppendFails
        { clock := someClock, appended := [], commitIndex := 2 }).stateMachine.get "x" = none ∧
      (applyCall firstAppendFails
        { clock := someClock, appended := [], commitIndex := 2 }).stateMachine.get "y" = some "2" ∧
      ¬InFull (applyCall firstAppendFails
        { clock := someClock, appended := [], commitIndex := 2 }) := by
  obtain ⟨happlying, hfull⟩ := startsWith_applying firstAppendFails.log 4096 [true]
  refine ⟨by decide +kernel, by decide +kernel, by decide +kernel, fun h => ?_⟩
  have hloses := (applyCall_inFull_iff happlying hfull _).mp h "x"
  revert hloses
  decide +kernel

end RaftNode

end OxideKv
