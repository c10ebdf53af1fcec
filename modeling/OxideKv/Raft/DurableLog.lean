import OxideKv.Raft.Merge

/-!
# The log file and the log in memory

Every append to the log is also an append to the log file.  A truncation is
not: `handle_append_entries` drops a conflicting suffix of the log in memory
and appends the new entries to a file that still holds the old ones.  After
that the file is longer than the log, and no later call makes it shorter.

`conflictsWith` is that case, on the log and the entries of the request, and
`restoreWalLog_eq_log_iff` says that the two logs agree after a run exactly
when no request of the run was of that kind.
-/

namespace OxideKv

open Run

/-- The calls that take or install a snapshot. -/
def NodeEvent.isSnapshot : NodeEvent → Bool
  | .installSnapshot _ _ => true
  | .maybeSnapshot _ => true
  | _ => false

namespace RaftNode

/-- The call is an `AppendEntries` that passes the checks of the handler and
makes it truncate the log. -/
def Truncates (n : RaftNode) : NodeEvent → Prop
  | .appendEntries _ args =>
      n.Accepts args.term ∧ prevLogMatches args n = true ∧
        conflictsWith n.log args.entries = true
  | _ => False

/-! ## One step -/

/-- `n'` is `n` with the same entries appended to the log and to its file. -/
def AppendsBoth (n n' : RaftNode) : Prop :=
  n'.storage.walFaults = [] ∧
    ∃ entries, n'.log = n.log ++ entries ∧ n'.storage.wal = n.storage.wal ++ entries

/-- The file of `n'` is longer than its log, when that of `n` was no
shorter. -/
def OutgrowsLog (n n' : RaftNode) : Prop :=
  n'.storage.walFaults = [] ∧
    (n.log.length ≤ n.storage.wal.length → n'.log.length < n'.storage.wal.length)

section Merge

variable {n n₁ n₂ : RaftNode}

theorem AppendsBoth.refl (h : n.storage.walFaults = []) : AppendsBoth n n :=
  ⟨h, [], by simp, by simp⟩

theorem AppendsBoth.trans (h₁ : AppendsBoth n n₁) (h₂ : AppendsBoth n₁ n₂) :
    AppendsBoth n n₂ := by
  obtain ⟨_, es₁, hlog₁, hwal₁⟩ := h₁
  obtain ⟨hf, es₂, hlog₂, hwal₂⟩ := h₂
  exact ⟨hf, es₁ ++ es₂, by rw [hlog₂, hlog₁, List.append_assoc],
    by rw [hwal₂, hwal₁, List.append_assoc]⟩

theorem AppendsBoth.of_extends (hf : n.storage.walFaults = []) (h : Extends n n₁) :
    AppendsBoth n n₁ := by
  obtain ⟨es, hlog, -, -, hwal⟩ := h.appended
  exact ⟨(hwal hf).2, es, hlog, (hwal hf).1⟩

/-- Only the election state and the indices differ. -/
theorem AppendsBoth.of_same (hf : n.storage.walFaults = [])
    (hwal : n₁.storage.wal = n.storage.wal)
    (hfaults : n₁.storage.walFaults = n.storage.walFaults) (hlog : n₁.log = n.log) :
    AppendsBoth n n₁ :=
  ⟨hfaults.trans hf, [], by simp [hlog], by simp [hwal]⟩

theorem AppendsBoth.length_le (h : AppendsBoth n n₁)
    (hle : n.log.length ≤ n.storage.wal.length) : n₁.log.length ≤ n₁.storage.wal.length := by
  obtain ⟨_, es, hlog, hwal⟩ := h
  rw [hlog, hwal, List.length_append, List.length_append]
  omega

theorem AppendsBoth.length_lt (h : AppendsBoth n n₁)
    (hlt : n.log.length < n.storage.wal.length) : n₁.log.length < n₁.storage.wal.length := by
  obtain ⟨_, es, hlog, hwal⟩ := h
  rw [hlog, hwal, List.length_append, List.length_append]
  omega

theorem OutgrowsLog.of_appendsBoth (h : AppendsBoth n n₁) (h₂ : OutgrowsLog n₁ n₂) :
    OutgrowsLog n n₂ :=
  ⟨h₂.1, fun hle => h₂.2 (h.length_le hle)⟩

theorem OutgrowsLog.append (h : OutgrowsLog n n₁) (h₂ : AppendsBoth n₁ n₂) :
    OutgrowsLog n n₂ :=
  ⟨h₂.1, fun hle => h₂.length_lt (h.2 hle)⟩

/-- What the file of a node holds after `append_wal_log`. -/
theorem appendWal_ok (hf : n.storage.walFaults = []) (entry : LogEntry)
    (log : List LogEntry) :
    appendWal entry { n with log := log } =
      { n with
        log := log
        storage := { n.storage with wal := n.storage.wal ++ [entry] } } := by
  rw [appendWal, RaftStorage.appendWalLog_ok (by exact hf)]

theorem OutgrowsLog.trans (h : OutgrowsLog n n₁) (h₂ : OutgrowsLog n₁ n₂) :
    OutgrowsLog n n₂ :=
  ⟨h₂.1, fun hle => h₂.2 (h.2 hle).le⟩

/-- The loop of `handle_append_entries` appends to both logs without a
conflict, and lets the file outgrow the log with one. -/
theorem foldl_mergeEntry_ok (entries : List LogEntry) :
    ∀ {n : RaftNode}, n.storage.walFaults = [] →
      (conflictsWith n.log entries = false → AppendsBoth n (entries.foldl mergeEntry n)) ∧
      (conflictsWith n.log entries = true → OutgrowsLog n (entries.foldl mergeEntry n)) := by
  induction entries with
  | nil =>
    intro n hf
    exact ⟨fun _ => AppendsBoth.refl hf, fun h => by cases h⟩
  | cons entry entries ih =>
    intro n hf
    rw [conflictsWith, List.foldl_cons, mergeEntry]
    cases hown : n.log[usizePred entry.index]? with
    | none =>
      dsimp only
      rw [appendWal_ok hf]
      have happ : AppendsBoth n
          { n with
            log := n.log ++ [entry]
            storage := { n.storage with wal := n.storage.wal ++ [entry] } } :=
        ⟨hf, [entry], rfl, rfl⟩
      obtain ⟨hno, hyes⟩ := ih happ.1
      exact ⟨fun h => happ.trans (hno h), fun h => OutgrowsLog.of_appendsBoth happ (hyes h)⟩
    | some own =>
      have hlt : usizePred entry.index < n.log.length := (List.getElem?_eq_some_iff.mp hown).1
      by_cases hterm : own.term = entry.term
      · simp only [hterm, bne_self_eq_false, Bool.false_or, ne_eq, not_true_eq_false, if_false]
        exact ih hf
      · -- the entry replaces a suffix of the log, and the file keeps that suffix
        have hout : OutgrowsLog n
            { n with
              log := n.log.take (usizePred entry.index) ++ [entry]
              storage := { n.storage with wal := n.storage.wal ++ [entry] } } := by
          refine ⟨hf, fun hle => ?_⟩
          simp only [List.length_append, List.length_take, List.length_singleton]
          omega
        have hbne : (own.term != entry.term) = true := bne_iff_ne.mpr hterm
        simp only [hbne, Bool.true_or, ne_eq, hterm, not_false_eq_true, if_true]
        rw [appendWal_ok hf]
        refine ⟨fun h => (by cases h), fun _ => ?_⟩
        obtain ⟨hno, hyes⟩ := ih hout.1
        cases hrest : conflictsWith _ entries with
        | false => exact hout.append (hno hrest)
        | true => exact hout.trans (hyes hrest)

end Merge

/-! ## The calls -/

section Calls

variable {n : RaftNode} (hf : n.storage.walFaults = [])

include hf

theorem AppendsBoth.of_roleMoved (h : RoleMoved n n') : AppendsBoth n n' := by
  obtain ⟨storage, hwal, -, hfaults, _, _, _, _, _, rfl⟩ := h
  exact AppendsBoth.of_same hf hwal hfaults rfl

theorem applyLogs_appendsBoth (clock : Clock) : AppendsBoth n (applyLogs clock n) :=
  AppendsBoth.of_extends hf (applyLogs_extends clock n)

theorem maybeCommit_appendsBoth (clock : Clock) : AppendsBoth n (maybeCommit clock n) := by
  obtain ⟨c, -, h⟩ := maybeCommit_extends clock n
  exact @AppendsBoth.of_extends { n with commitIndex := c } _ hf h

theorem handleTxVoteRequest_appendsBoth (clock : Clock) (req : VoteRequest) :
    AppendsBoth n (handleTxVoteRequest clock req n).2 := by
  rcases handleTxVoteRequest_extends clock req n with ⟨-, heq⟩ | ⟨c, -, hext⟩
  · rw [heq]
    exact AppendsBoth.of_roleMoved hf (stepDown_roleMoved req.term n)
  · exact @AppendsBoth.of_extends { n with commitIndex := c } _ hf hext

theorem appendReply_appendsBoth (clock : Clock) (peer : String) (args : AppendEntriesArgs)
    (reply : AppendReplyArgs) : AppendsBoth n (appendReply clock peer args reply n) := by
  rw [appendReply]
  dsimp only
  split_ifs with hsuccess hnew hnext
  · refine AppendsBoth.trans ?_ (maybeCommit_appendsBoth (by exact hf) clock)
    exact AppendsBoth.of_same hf rfl rfl rfl
  · exact AppendsBoth.of_roleMoved hf (stepDown_roleMoved reply.term n)
  · exact AppendsBoth.of_same hf rfl rfl rfl
  · exact AppendsBoth.refl hf

theorem followLeader_appendsBoth (clock : Clock) {term : Nat} (hle : n.currentTerm ≤ term) :
    AppendsBoth n (followLeader clock term n) := by
  obtain ⟨storage, hwal, -, hfaults, heq⟩ := followLeader_eq clock hle
  rw [heq]
  exact AppendsBoth.of_same hf hwal hfaults rfl

theorem followCommit_appendsBoth (clock : Clock) (leaderCommit : Nat) :
    AppendsBoth n (followCommit clock leaderCommit n) := by
  rw [followCommit]
  split_ifs
  · exact @applyLogs_appendsBoth { n with commitIndex := min leaderCommit n.log.length } hf clock
  · exact AppendsBoth.refl hf

theorem handleAppendEntries_ok (clock : Clock) (args : AppendEntriesArgs) :
    (¬n.Truncates (.appendEntries clock args) →
        AppendsBoth n (handleAppendEntries clock args n).2) ∧
      (n.Truncates (.appendEntries clock args) →
        OutgrowsLog n (handleAppendEntries clock args n).2) := by
  rcases handleAppendEntries_cases clock args n with
    ⟨hrefuse, heq⟩ | ⟨hacc, ⟨hprev, heq⟩ | ⟨hprev, heq⟩⟩ <;> rw [heq]
  · exact ⟨fun _ => AppendsBoth.refl hf, fun h => absurd h.1 hrefuse⟩
  · refine ⟨fun _ => followLeader_appendsBoth hf clock hacc.1, fun ⟨_, hprev', _⟩ => ?_⟩
    rw [hprev] at hprev'
    cases hprev'
  · have hfollow := followLeader_appendsBoth hf clock hacc.1
    have hlog : (followLeader clock args.term n).log = n.log := by
      obtain ⟨_, -, -, -, heq⟩ := followLeader_eq clock hacc.1
      rw [heq]
    obtain ⟨hno, hyes⟩ := foldl_mergeEntry_ok args.entries hfollow.1
    rw [hlog] at hno hyes
    cases hconf : conflictsWith n.log args.entries with
    | false =>
      refine ⟨fun _ => ?_, fun ⟨_, _, hconf'⟩ => ?_⟩
      · have hmerge := hfollow.trans (hno hconf)
        exact hmerge.trans (followCommit_appendsBoth hmerge.1 clock args.leaderCommit)
      · rw [hconf] at hconf'
        cases hconf'
    | true =>
      refine ⟨fun hnot => absurd ⟨hacc, hprev, hconf⟩ hnot, fun _ => ?_⟩
      have hmerge := OutgrowsLog.of_appendsBoth hfollow (hyes hconf)
      exact hmerge.append (followCommit_appendsBoth hmerge.1 clock args.leaderCommit)

end Calls

/-- A call other than a snapshot appends to both logs, unless it
truncates. -/
theorem step_durable {n n' : RaftNode} {e : NodeEvent} (hf : n.storage.walFaults = [])
    (he : e.isSnapshot = false) (h : n.step e = some n') :
    (¬n.Truncates e → AppendsBoth n n') ∧ (n.Truncates e → OutgrowsLog n n') := by
  cases e with
  | appendEntries clock args =>
    obtain rfl := Option.some.inj h
    exact handleAppendEntries_ok hf clock args
  | installSnapshot clock args => cases he
  | maybeSnapshot thresholdBytes => cases he
  | propose | proposeBatch | proposeAddNode | proposeRemoveNode | proposeAbortTx =>
    exact ⟨fun _ => .of_extends hf (step_proposed h rfl).toExtends, False.elim⟩
  | requestVote | preVote | becomeCandidate | enterPreVote | preVoteAlone | preVoteStale
  | preVoteQuorum | voteQuorum | voteRefused | coordinatorStepDown =>
    exact ⟨fun _ => .of_roleMoved hf (step_roleMoved h rfl), False.elim⟩
  | txVoteRequest clock req =>
    obtain rfl := Option.some.inj h
    exact ⟨fun _ => handleTxVoteRequest_appendsBoth hf clock req, False.elim⟩
  | syncAlone clock =>
    obtain rfl := Option.some.inj h
    refine ⟨fun _ => ?_, False.elim⟩
    rw [syncAlone]
    split_ifs
    · exact maybeCommit_appendsBoth hf clock
    · exact AppendsBoth.refl hf
  | appendReply clock peer args reply =>
    obtain rfl := Option.some.inj h
    exact ⟨fun _ => appendReply_appendsBoth hf clock peer args reply, False.elim⟩

/-! ## Runs -/

/-- Once the file is longer than the log it stays so. -/
theorem run_longer {es : List NodeEvent} :
    ∀ {n n' : RaftNode}, n.storage.walFaults = [] → n.log.length < n.storage.wal.length →
      (∀ e ∈ es, e.isSnapshot = false) → run step n es = some n' →
      n'.log.length < n'.storage.wal.length := by
  induction es with
  | nil =>
    intro n n' _ hlt _ hrun
    obtain rfl : n = n' := Option.some.inj hrun
    exact hlt
  | cons e es ih =>
    intro n n' hf hlt hes hrun
    obtain ⟨n₁, hstep, hrest⟩ := run_cons_eq_some.mp hrun
    obtain ⟨hkeep, htrunc⟩ := step_durable hf (hes e (by simp)) hstep
    have hes' : ∀ e ∈ es, e.isSnapshot = false := fun x hx => hes x (by simp [hx])
    by_cases ht : n.Truncates e
    · exact ih (htrunc ht).1 ((htrunc ht).2 hlt.le) hes' hrest
    · exact ih (hkeep ht).1 ((hkeep ht).length_lt hlt) hes' hrest

/-- After a run without snapshots the file holds exactly the log, and a
restart resumes with it, if and only if no request truncated the log. -/
theorem restoreWalLog_eq_log_iff {n n' : RaftNode} {es : List NodeEvent}
    (hf : n.storage.walFaults = []) (hwal : n.storage.restoreWalLog = n.log)
    (hes : ∀ e ∈ es, e.isSnapshot = false) (hrun : run step n es = some n') :
    (n'.storage.restoreWalLog = n'.log ∧
        ∀ peers clock r, restart n'.nodeId peers clock n' = some r → r.log = n'.log) ↔
      Along step (fun n e => ¬n.Truncates e) n es := by
  have hiff : n'.storage.restoreWalLog = n'.log ↔
      Along step (fun n e => ¬n.Truncates e) n es := by
    induction es generalizing n with
    | nil =>
      obtain rfl : n = n' := Option.some.inj hrun
      exact iff_of_true hwal trivial
    | cons e es ih =>
      obtain ⟨n₁, hstep, hrest⟩ := run_cons_eq_some.mp hrun
      obtain ⟨hkeep, htrunc⟩ := step_durable hf (hes e (by simp)) hstep
      have hes' : ∀ e ∈ es, e.isSnapshot = false := fun x hx => hes x (by simp [hx])
      by_cases ht : n.Truncates e
      · -- the file is longer than the log from here on
        have hlen : n.log.length ≤ n.storage.wal.length :=
          (congrArg List.length hwal).symm.le
        have hlonger := run_longer (htrunc ht).1 ((htrunc ht).2 hlen) hes' hrest
        refine iff_of_false (fun heq => ?_) fun halong => halong.1 ht
        have hlen' : n'.storage.wal.length = n'.log.length := congrArg List.length heq
        omega
      · obtain ⟨hf₁, entries, hlog₁, hwal₁⟩ := hkeep ht
        have hsame : n₁.storage.restoreWalLog = n₁.log := by
          rw [RaftStorage.restoreWalLog, hwal₁, hlog₁]
          exact congrArg (· ++ entries) hwal
        rw [ih hf₁ hsame hes' hrest]
        refine ⟨fun halong => ⟨ht, fun s' hs' => ?_⟩, fun halong => halong.2 n₁ hstep⟩
        rwa [← Option.some.inj (hstep.symm.trans hs')]
  constructor
  · exact fun h => hiff.mp h.1
  · exact fun h => ⟨hiff.mpr h, fun _ _ _ hr => (restart_eq hr).1.trans (hiff.mpr h)⟩

/-- The `AppendEntries` of a leader of `term` that carries one entry for
position 1. -/
def appendFirst (term : Nat) (value : String) : NodeEvent :=
  .appendEntries { now := term, unixMs := fun _ => term }
    { term := term
      leaderId := "a"
      prevLogIndex := 0
      prevLogTerm := 0
      entries := [{ term := term, index := 1, command := .set "x" value }]
      leaderCommit := 0 }

theorem restoreWalLog_after_append :
    ∃ n, run step (freshNode "b" ["a", "c"]) [appendFirst 1 "1"] = some n ∧
      n.storage.restoreWalLog = n.log := by
  refine ⟨_, rfl, ?_⟩
  refine ((@restoreWalLog_eq_log_iff _ _ [appendFirst 1 "1"] rfl rfl ?_ rfl).mpr ?_).1
  · simp [appendFirst, NodeEvent.isSnapshot]
  · exact ⟨fun h => (by cases h.2.2), fun _ _ => trivial⟩

/-- A follower takes an entry of term 1 and then, at the same position, one of
term 2.  The log holds the second, the file holds both. -/
theorem restoreWalLog_keeps_overwritten_entry :
    ∃ n, run step (freshNode "b" ["a", "c"]) [appendFirst 1 "1", appendFirst 2 "2"] = some n ∧
      n.log = [{ term := 2, index := 1, command := .set "x" "2" }] ∧
      n.storage.restoreWalLog =
        [{ term := 1, index := 1, command := .set "x" "1" },
          { term := 2, index := 1, command := .set "x" "2" }] ∧
      n.storage.restoreWalLog ≠ n.log := by
  refine ⟨_, rfl, rfl, rfl, ?_⟩
  decide

end RaftNode

end OxideKv
