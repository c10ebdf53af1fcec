import OxideKv.Raft.Merge

/-!
# Log indices across snapshots and restarts

Every index computation of a node takes the entry with index `i` to stand at
position `i - 1` of the log.  `IndicesSurvive` is what that is for: a proposal
gets a new index, an applied entry carries the next index, and the end of the
log and the applied part are never behind the snapshot.

Two operations shorten the log at its front and keep the positions:
`handle_install_snapshot`, and a restart on the log file that
`rewrite_wal_after_snapshot` left.  A conflict can also shorten the log below
the applied part.  `KeepsIndices` leaves these steps out, and
`indices_survive` is the result for every run of the others.
-/

namespace OxideKv

open Fallible Run

namespace AppendEntriesArgs

/-- The request carries consecutive entries, with terms that go from that of
the entry before them up to the term of the request. -/
structure FromLeader (args : AppendEntriesArgs) : Prop where
  numbered : NumberedAfter args.prevLogIndex args.entries
  sorted : (args.prevLogTerm :: args.entries.map LogEntry.term).Pairwise (· ≤ ·)
  le_term : ∀ e ∈ args.entries, e.term ≤ args.term

end AppendEntriesArgs

namespace RaftNode

/-- Log indices are intact in the node. -/
structure IndicesSurvive (n : RaftNode) : Prop where
  /-- A proposal gets an index above those of the log, of the applied part and
  of the snapshot. -/
  propose_above : ∀ command, (∀ e ∈ n.log, e.index < (n.nextEntry command).index) ∧
    n.lastApplied < (n.nextEntry command).index ∧
    ∀ snap, n.storage.snapshot = some snap →
      snap.lastIncludedIndex < (n.nextEntry command).index
  /-- The entry at position `i`, which `apply_logs` takes when `last_applied`
  is `i`, carries the index `i + 1`. -/
  apply_next : ∀ i e, n.log[i]? = some e → e.index = i + 1
  /-- The end of the log is not below the snapshot. -/
  lastLog_ge : ∀ snap, n.storage.snapshot = some snap →
    snap.lastIncludedIndex ≤ n.getLastLogInfo.1 ∧ snap.lastIncludedTerm ≤ n.getLastLogInfo.2
  /-- The applied part is not below the snapshot. -/
  applied_ge : ∀ snap, n.storage.snapshot = some snap →
    snap.lastIncludedIndex ≤ n.lastApplied

/-- The steps that leave the positions of the log alone. -/
def KeepsIndices (n : RaftNode) : LifeEvent → Prop
  | .call (.appendEntries _ args) =>
      args.FromLeader ∧
        (n.Accepts args.term → prevLogMatches args n = true →
          conflictsWith n.log args.entries = true →
            n.lastApplied ≤ args.prevLogIndex + args.entries.length ∧
              ∀ snap last, n.storage.snapshot = some snap →
                args.entries.getLast? = some last → snap.lastIncludedTerm ≤ last.term)
  | .call (.installSnapshot _ args) => ¬n.Accepts args.term
  | .call (.becomeCandidate _) => n.currentTerm + 1 ≠ 2 ^ 64
  | .call (.preVoteAlone _) => n.state = .preCandidate → n.currentTerm + 1 ≠ 2 ^ 64
  | .call (.preVoteQuorum _) => n.state = .preCandidate → n.currentTerm + 1 ≠ 2 ^ 64
  | .call (.voteRefused term reply) => term < reply.term → n.currentTerm ≤ reply.term
  | .call (.coordinatorStepDown leaderTerm resp) =>
      leaderTerm < resp.term → n.state = .leader → n.currentTerm ≤ resp.term
  | .restart _ _ =>
      n.storage.snapshot = none ∧ Numbered n.storage.restoreWalLog ∧
        TermsSorted n.storage.restoreWalLog ∧
        ∀ e ∈ n.storage.restoreWalLog, e.term ≤ n.storage.readMeta.1
  | _ => True

/-! ## The invariant -/

/-- The log is numbered, its terms are sorted and not above that of the node,
the log covers what is applied, and the applied part covers the snapshot. -/
structure IndexInv (n : RaftNode) : Prop where
  numbered : Numbered n.log
  sorted : TermsSorted n.log
  le_term : ∀ e ∈ n.log, e.term ≤ n.currentTerm
  applied_le : n.lastApplied ≤ n.log.length
  snapshot : ∀ snap, n.storage.snapshot = some snap →
    0 < snap.lastIncludedIndex ∧ snap.lastIncludedIndex ≤ n.lastApplied ∧
      ∀ last, n.log.getLast? = some last → snap.lastIncludedTerm ≤ last.term

/-- The invariant with the commit index inside the applied part, as it is
between two calls. -/
def IndexInvC (n : RaftNode) : Prop := IndexInv n ∧ n.commitIndex ≤ n.lastApplied

theorem TermsSorted_le_last {log : List LogEntry} (h : TermsSorted log) {e last : LogEntry}
    (he : e ∈ log) (hlast : log.getLast? = some last) : e.term ≤ last.term := by
  obtain ⟨init, rfl⟩ := List.getLast?_eq_some_iff.mp hlast
  rcases List.mem_append.mp he with he | he
  · rw [TermsSorted, List.map_append, List.pairwise_append] at h
    exact h.2.2 _ (List.mem_map_of_mem he) _ (by simp)
  · rw [List.mem_singleton.mp he]

/-- The last index of a numbered log is its length. -/
theorem getLastLogInfo_of_numbered {n : RaftNode} (h : Numbered n.log) :
    n.getLastLogInfo.1 = n.log.length := by
  rw [getLastLogInfo]
  cases hlast : n.log.getLast? with
  | none => rw [List.getLast?_eq_none_iff.mp hlast]; rfl
  | some last =>
    obtain ⟨init, hlog⟩ := List.getLast?_eq_some_iff.mp hlast
    have := h init.length last (by rw [hlog]; simp)
    rw [hlog, List.length_append, List.length_singleton]
    exact this

theorem IndexInv.survive {n : RaftNode} (h : IndexInv n) : IndicesSurvive n := by
  have happlied := h.applied_le
  refine ⟨fun command => ⟨fun e he => ?_, ?_, fun snap hsnap => ?_⟩, h.numbered,
    fun snap hsnap => ?_, fun snap hsnap => (h.snapshot snap hsnap).2.1⟩
  · obtain ⟨i, hi⟩ := List.getElem?_of_mem he
    have hlt : i < n.log.length := (List.getElem?_eq_some_iff.mp hi).1
    rw [h.numbered i e hi]
    exact Nat.succ_lt_succ hlt
  · exact Nat.lt_succ_of_le happlied
  · have := (h.snapshot snap hsnap).2.1
    exact Nat.lt_succ_of_le (by omega)
  · obtain ⟨hpos, hle, hterm⟩ := h.snapshot snap hsnap
    refine ⟨by rw [getLastLogInfo_of_numbered h.numbered]; omega, ?_⟩
    rw [getLastLogInfo]
    cases hlast : n.log.getLast? with
    | none =>
      rw [List.getLast?_eq_none_iff.mp hlast] at happlied
      simp at happlied
      omega
    | some last => exact hterm last hlast

/-- A node with a snapshot has entries in its log. -/
theorem IndexInv.log_ne_nil {n : RaftNode} (h : IndexInv n) {snap : Snapshot}
    (hsnap : n.storage.snapshot = some snap) : n.log ≠ [] := by
  intro hnil
  obtain ⟨hpos, hle, -⟩ := h.snapshot snap hsnap
  have := h.applied_le
  rw [hnil] at this
  simp at this
  omega

/-- The terms stay sorted through the loop of `handle_append_entries`. -/
theorem merge_sorted {n : RaftNode} {args : AppendEntriesArgs} {k : Nat}
    (h : TermsSorted n.log) (hlead : args.FromLeader) (hprev : prevLogMatches args n = true)
    (hcut : MergeCut n.log args.prevLogIndex args.entries k) :
    TermsSorted (args.entries.foldl mergeLog n.log) := by
  rcases hcut.terms with ⟨hsame, _⟩ | hterms
  · rw [hsame]
    exact h
  · obtain ⟨hge, hsorted⟩ := List.pairwise_cons.mp hlead.sorted
    rw [TermsSorted, hterms, List.pairwise_append]
    have htake : TermsSorted (n.log.take args.prevLogIndex) := by
      rw [TermsSorted, List.map_take]
      exact List.Pairwise.sublist (List.take_sublist _ _) h
    refine ⟨htake, hsorted, fun a ha b hb => ?_⟩
    obtain ⟨x, hx, rfl⟩ := List.mem_map.mp ha
    refine Nat.le_trans ?_ (hge b hb)
    rcases prevLogMatches_spec hprev with h0 | ⟨hpos, hle, e, he, hterm⟩
    · rw [h0] at hx
      simp at hx
    · rw [← hterm]
      refine TermsSorted_le_last htake hx ?_
      rw [List.getLast?_take, if_neg (by omega), he]
      rfl

/-- The invariant looks at the log, the term, the snapshot and the applied
part only. -/
theorem IndexInv.of_same {n n' : RaftNode} (h : IndexInv n) (hlog : n'.log = n.log)
    (hterm : n.currentTerm ≤ n'.currentTerm) (hsnap : n'.storage.snapshot = n.storage.snapshot)
    (happlied : n'.lastApplied = n.lastApplied) : IndexInv n' := by
  refine ⟨hlog ▸ h.numbered, hlog ▸ h.sorted, fun e he => ?_, ?_, ?_⟩
  · exact (h.le_term e (hlog ▸ he)).trans hterm
  · rw [happlied, hlog]
    exact h.applied_le
  · rw [hsnap, happlied, hlog]
    exact h.snapshot

/-- Appending numbered entries of the node's own term keeps the
invariant. -/
theorem IndexInv.of_extends {n n' : RaftNode} (h : IndexInv n) (he : Extends n n')
    (hlow : n.lastApplied ≤ n'.lastApplied) (hhigh : n'.lastApplied ≤ n'.log.length) :
    IndexInv n' := by
  obtain ⟨es, hlog, hnum, -, -⟩ := he.appended
  have hterm : ∀ e ∈ es, e.term = n.currentTerm := by
    intro e he
    obtain ⟨i, hi⟩ := List.getElem?_of_mem he
    exact (hnum i e hi).2
  have hsorted : TermsSorted n'.log := by
    rw [TermsSorted, hlog, List.map_append, List.pairwise_append]
    refine ⟨h.sorted, ?_, ?_⟩
    · rw [List.pairwise_map]
      exact List.pairwise_of_forall_mem_list fun a ha b hb => by rw [hterm a ha, hterm b hb]
    · intro a ha b hb
      obtain ⟨x, hx, rfl⟩ := List.mem_map.mp ha
      obtain ⟨y, hy, rfl⟩ := List.mem_map.mp hb
      rw [hterm y hy]
      exact h.le_term x hx
  refine ⟨?_, hsorted, ?_, hhigh, ?_⟩
  · exact he.numbered h.numbered
  · intro e hmem
    rw [he.currentTerm]
    rw [hlog, List.mem_append] at hmem
    rcases hmem with hmem | hmem
    · exact h.le_term e hmem
    · exact (hterm e hmem).le
  · intro snap hsnap
    rw [he.snapshot] at hsnap
    obtain ⟨hpos, hle, hlast⟩ := h.snapshot snap hsnap
    refine ⟨hpos, hle.trans hlow, fun last hl => ?_⟩
    -- the last entry of the old log is still there, and terms do not go back
    have hne : n.log ≠ [] := h.log_ne_nil hsnap
    have hold : n.log.getLast? = some (n.log.getLast hne) := List.getLast?_eq_some_getLast hne
    refine (hlast _ hold).trans (TermsSorted_le_last hsorted ?_ hl)
    rw [hlog]
    exact List.mem_append_left _ (List.getLast_mem hne)

/-! ## The calls -/

/-- `apply_logs` after the commit index has moved inside the log. -/
theorem IndexInv.applyLogs {n : RaftNode} (h : IndexInv n) (clock : Clock)
    (hle : n.commitIndex ≤ n.log.length) : IndexInvC (applyLogs clock n) := by
  have hext := applyLogs_extends clock n
  have hla := applyLogs_lastApplied clock hle
  have happlied := h.applied_le
  obtain ⟨es, hlog, -⟩ := hext.appended
  refine ⟨h.of_extends hext (by omega) ?_, ?_⟩
  · rw [hla, hlog, List.length_append]
    omega
  · rw [hext.commitIndex, hla]
    omega

theorem IndexInv.commitTo {n : RaftNode} (h : IndexInv n) (clock : Clock) {c : Nat}
    (hle : c ≤ n.log.length) :
    IndexInvC (RaftNode.applyLogs clock { n with commitIndex := c }) := by
  have h' : IndexInv { n with commitIndex := c } := h.of_same rfl (Nat.le_refl _) rfl rfl
  exact h'.applyLogs clock hle

theorem IndexInvC.of_proposed {n n' : RaftNode} (h : IndexInvC n) (hp : Proposed n n') :
    IndexInvC n' := by
  obtain ⟨es, hlog, -⟩ := hp.appended
  have happlied := h.1.applied_le
  refine ⟨h.1.of_extends hp.toExtends hp.lastApplied.ge ?_, ?_⟩
  · rw [hp.lastApplied, hlog, List.length_append]
    omega
  · rw [hp.commitIndex, hp.lastApplied]
    exact h.2

theorem IndexInvC.of_same {n n' : RaftNode} (h : IndexInvC n) (hlog : n'.log = n.log)
    (hterm : n.currentTerm ≤ n'.currentTerm) (hsnap : n'.storage.snapshot = n.storage.snapshot)
    (happlied : n'.lastApplied = n.lastApplied) (hcommit : n'.commitIndex = n.commitIndex) :
    IndexInvC n' :=
  ⟨h.1.of_same hlog hterm hsnap happlied, by rw [hcommit, happlied]; exact h.2⟩

section Calls

variable {n : RaftNode} (h : IndexInvC n)

include h

theorem stepDown_indexInv {term : Nat} (hle : n.currentTerm ≤ term) :
    IndexInvC (stepDown term n) := by
  obtain ⟨storage, -, hsnap, -, heq⟩ := stepDown_eq term n
  rw [heq]
  exact h.of_same rfl hle hsnap rfl rfl

theorem promoteToCandidate_indexInv (clock : Clock) (hne : n.currentTerm + 1 ≠ 2 ^ 64) :
    IndexInvC (promoteToCandidate clock n) := by
  obtain ⟨storage, -, hsnap, -, heq⟩ := saveMeta_eq
    { n with
      currentTerm := u64Succ n.currentTerm
      state := .candidate
      voteFor := some n.nodeId }
  rw [promoteToCandidate, heq]
  refine h.of_same rfl ?_ hsnap rfl rfl
  show n.currentTerm ≤ u64Succ n.currentTerm
  rw [u64Succ_of_ne hne]
  omega

theorem becomeLeader_indexInv (clock : Clock) : IndexInvC (becomeLeader clock n) := by
  rw [becomeLeader]
  split_ifs
  · exact h
  · exact h.of_same rfl (Nat.le_refl _) rfl rfl rfl

theorem maybeCommit_indexInv (clock : Clock) : IndexInvC (maybeCommit clock n) := by
  rcases maybeCommit_cases clock n with heq | ⟨c, -, -, hle, -, -, heq⟩ <;> rw [heq]
  · exact h
  · exact h.1.commitTo clock hle

theorem handleRequestVote_indexInv (clock : Clock) (args : RequestVoteArgs) :
    IndexInvC (handleRequestVote clock args n).2 := by
  rcases handleRequestVote_cases clock args n with
    ⟨_, heq⟩ | ⟨hle, ⟨_, _, storage, -, hsnap, -, heq⟩ | heq⟩ <;> rw [heq]
  · exact h
  · exact h.of_same rfl hle hsnap rfl rfl
  · obtain ⟨storage, -, hsnap, -, heq⟩ := adoptNewer_eq hle
    rw [heq]
    exact h.of_same rfl hle hsnap rfl rfl

theorem handleTxVoteRequest_indexInv (clock : Clock) (req : VoteRequest) :
    IndexInvC (handleTxVoteRequest clock req n).2 := by
  rw [handleTxVoteRequest]
  split_ifs with hlt hnew hlog
  · exact h
  · exact stepDown_indexInv h hnew.le
  · exact h
  · have happly : IndexInvC (applyLogs clock (fastForwardCommit req.lastLogIndex n)) := by
      have happlied := h.1.applied_le
      have hcommit := h.2
      rw [fastForwardCommit]
      split_ifs with hlt' hle
      · exact h.1.commitTo clock hle
      · exact h.1.applyLogs clock (by omega)
      · exact h.1.applyLogs clock (by omega)
    dsimp only
    split_ifs with hpending
    · exact happly
    · exact happly.of_same rfl (Nat.le_refl _) rfl rfl rfl

theorem appendReply_indexInv (clock : Clock) (peer : String) (args : AppendEntriesArgs)
    (reply : AppendReplyArgs) : IndexInvC (appendReply clock peer args reply n) := by
  rw [appendReply]
  dsimp only
  split_ifs with hsuccess hnew hnext
  · refine maybeCommit_indexInv ?_ clock
    exact h.of_same rfl (Nat.le_refl _) rfl rfl rfl
  · exact stepDown_indexInv h hnew.le
  · exact h.of_same rfl (Nat.le_refl _) rfl rfl rfl
  · exact h

theorem followLeader_indexInv (clock : Clock) {term : Nat} (hle : n.currentTerm ≤ term) :
    IndexInvC (followLeader clock term n) := by
  obtain ⟨storage, -, hsnap, -, heq⟩ := followLeader_eq clock hle
  rw [heq]
  exact h.of_same rfl hle hsnap rfl rfl

theorem followCommit_indexInv (clock : Clock) (leaderCommit : Nat) :
    IndexInvC (followCommit clock leaderCommit n) := by
  rw [followCommit]
  split_ifs
  · exact h.1.commitTo clock (Nat.min_le_right _ _)
  · exact h

/-- The loop of `handle_append_entries` on the entries of a leader. -/
theorem foldl_mergeEntry_indexInv {args : AppendEntriesArgs} (hlead : args.FromLeader)
    (hterm : args.term ≤ n.currentTerm) (hprev : prevLogMatches args n = true)
    (hspare : conflictsWith n.log args.entries = true →
      n.lastApplied ≤ args.prevLogIndex + args.entries.length ∧
        ∀ snap last, n.storage.snapshot = some snap →
          args.entries.getLast? = some last → snap.lastIncludedTerm ≤ last.term) :
    IndexInvC (args.entries.foldl mergeEntry n) := by
  obtain ⟨storage, -, hsnap, heq⟩ := foldl_mergeEntry_eq args.entries n
  obtain ⟨k, hcut⟩ := foldl_mergeLog_cut args.entries hlead.numbered (prevLogMatches_le hprev)
  have hsorted := merge_sorted h.1.sorted hlead hprev hcut
  rw [heq]
  refine ⟨⟨hcut.numbered h.1.numbered hlead.numbered, hsorted, fun e he => ?_, ?_, ?_⟩, h.2⟩
  · rcases hcut.terms with ⟨hsame, _⟩ | hterms
    · exact h.1.le_term e (hsame ▸ he)
    · have hmem := List.mem_map_of_mem (f := LogEntry.term) he
      rw [hterms, List.mem_append] at hmem
      rcases hmem with hmem | hmem <;> obtain ⟨x, hx, hxe⟩ := List.mem_map.mp hmem <;> rw [← hxe]
      · exact h.1.le_term x (List.mem_of_mem_take hx)
      · exact (hlead.le_term x hx).trans hterm
  · cases hconf : conflictsWith n.log args.entries with
    | false => exact h.1.applied_le.trans (hcut.prefix_of_no_conflict hconf).length_le
    | true =>
      rw [(hcut.of_conflict hconf).1]
      exact (hspare hconf).1
  · intro snap hs
    rw [show storage.snapshot = n.storage.snapshot from hsnap] at hs
    obtain ⟨hpos, hle, hlast⟩ := h.1.snapshot snap hs
    refine ⟨hpos, hle, fun last hl => ?_⟩
    cases hconf : conflictsWith n.log args.entries with
    | false =>
      have hne := h.1.log_ne_nil hs
      refine (hlast _ (List.getLast?_eq_some_getLast hne)).trans
        (TermsSorted_le_last hsorted ?_ hl)
      exact (hcut.prefix_of_no_conflict hconf).subset (List.getLast_mem hne)
    | true =>
      rw [(hcut.of_conflict hconf).2] at hl
      exact (hspare hconf).2 snap last hs hl

theorem handleAppendEntries_indexInv (clock : Clock) {args : AppendEntriesArgs}
    (hkeep : n.KeepsIndices (.call (.appendEntries clock args))) :
    IndexInvC (handleAppendEntries clock args n).2 := by
  obtain ⟨hlead, hspare⟩ := hkeep
  rcases handleAppendEntries_cases clock args n with
    ⟨_, heq⟩ | ⟨hacc, ⟨_, heq⟩ | ⟨hprev, heq⟩⟩ <;> rw [heq]
  · exact h
  · exact followLeader_indexInv h clock hacc.1
  · obtain ⟨storage, -, hsnap, -, hfollow⟩ := followLeader_eq clock hacc.1
    refine followCommit_indexInv ?_ clock args.leaderCommit
    have hinv := followLeader_indexInv h clock hacc.1
    rw [hfollow] at hinv ⊢
    refine foldl_mergeEntry_indexInv hinv hlead (Nat.le_refl _) hprev fun hconf => ?_
    have := hspare hacc hprev hconf
    rw [← hsnap] at this
    exact this

/-- A snapshot of a leader is at its commit index. -/
theorem maybeSnapshot_indexInv {thresholdBytes : Nat} {r : Bool × RaftNode}
    (hr : maybeSnapshot thresholdBytes n = some r) : IndexInvC r.2 := by
  rcases maybeSnapshot_cases hr with rfl | ⟨hzero, data, storage, -, heq, ⟨_, hsaved⟩ | ⟨_, hkept⟩⟩
  · exact h
  · rw [heq]
    have happlied := h.1.applied_le
    have hcommit := h.2
    refine ⟨⟨h.1.numbered, h.1.sorted, h.1.le_term, happlied, fun snap hsome => ?_⟩, hcommit⟩
    obtain rfl := Option.some.inj (hsaved.symm.trans hsome)
    refine ⟨Nat.pos_of_ne_zero hzero, hcommit, fun last hl => ?_⟩
    have hlt : n.commitIndex - 1 < n.log.length := by omega
    rw [List.getElem?_eq_getElem hlt]
    exact TermsSorted_le_last h.1.sorted (List.getElem_mem hlt) hl
  · rw [heq]
    exact h.of_same rfl (Nat.le_refl _) hkept rfl rfl

/-- A refused `InstallSnapshot` changes nothing. -/
theorem handleInstallSnapshot_indexInv {clock : Clock} {args : InstallSnapshotArgs}
    {r : InstallSnapshotReplyArgs × RaftNode} (hacc : ¬n.Accepts args.term)
    (hr : handleInstallSnapshot clock args n = some r) : IndexInvC r.2 := by
  rcases handleInstallSnapshot_cases hr with ⟨-, heq⟩ | ⟨hacc', -⟩
  · rw [heq]
    exact h
  · exact absurd hacc' hacc

end Calls

/-- A restart on a log file that is a log. -/
theorem restart_indexInv {n r : RaftNode} {peers : List String} {clock : Clock}
    (hkeep : n.KeepsIndices (.restart peers clock))
    (hr : restart n.nodeId peers clock n = some r) : IndexInvC r := by
  obtain ⟨hnone, hnum, hsorted, hterm⟩ := hkeep
  obtain ⟨hlog, hstorage, -, hterm', -, hla, hcommit⟩ := restart_eq hr
  refine ⟨⟨hlog ▸ hnum, hlog ▸ hsorted, ?_, ?_, fun snap hsnap => ?_⟩, ?_⟩
  · rw [hlog, hterm']
    exact hterm
  · rw [hla, hlog]
    exact Nat.le_refl _
  · rw [hstorage, hnone] at hsnap
    cases hsnap
  · rw [hcommit hnone]
    exact Nat.zero_le _

/-- A step that keeps the positions keeps the invariant. -/
theorem lifeStep_indexInv {n n' : RaftNode} {e : LifeEvent} (h : IndexInvC n)
    (hkeep : n.KeepsIndices e) (hstep : n.lifeStep e = some n') : IndexInvC n' := by
  cases e with
  | restart peers clock => exact restart_indexInv hkeep hstep
  | call e =>
    have hcall : n.step e = some n' := hstep
    cases e with
    | appendEntries clock args =>
      obtain rfl := Option.some.inj hstep
      exact handleAppendEntries_indexInv h clock hkeep
    | installSnapshot clock args =>
      obtain ⟨r, hr, rfl⟩ := Option.map_eq_some_iff.mp hstep
      exact handleInstallSnapshot_indexInv h hkeep hr
    | maybeSnapshot thresholdBytes =>
      obtain ⟨r, hr, rfl⟩ := Option.map_eq_some_iff.mp hstep
      exact maybeSnapshot_indexInv h hr
    | propose | proposeBatch | proposeAddNode | proposeRemoveNode | proposeAbortTx =>
      exact h.of_proposed (step_proposed hcall rfl)
    | requestVote clock args =>
      obtain rfl := Option.some.inj hstep
      exact handleRequestVote_indexInv h clock args
    | preVote clock args =>
      obtain rfl := Option.some.inj hstep
      rw [handlePreVote]
      split_ifs <;> exact h.of_same rfl (Nat.le_refl _) rfl rfl rfl
    | txVoteRequest clock req =>
      obtain rfl := Option.some.inj hstep
      exact handleTxVoteRequest_indexInv h clock req
    | becomeCandidate clock =>
      obtain rfl := Option.some.inj hstep
      exact promoteToCandidate_indexInv h clock hkeep
    | enterPreVote probedTerm =>
      obtain rfl := Option.some.inj hstep
      rw [enterPreVote]
      split_ifs
      · exact h.of_same rfl (Nat.le_refl _) rfl rfl rfl
      · exact h
    | preVoteAlone clock =>
      obtain rfl := Option.some.inj hstep
      rw [preVoteAlone, becomeLeaderChecked]
      split_ifs with hs hc
      · exact promoteToCandidate_indexInv h clock (hkeep hs)
      · exact becomeLeader_indexInv (promoteToCandidate_indexInv h clock (hkeep hs)) clock
      · exact h
    | preVoteStale =>
      obtain rfl := Option.some.inj hstep
      rw [preVoteStale]
      split_ifs
      · exact h.of_same rfl (Nat.le_refl _) rfl rfl rfl
      · exact h
    | preVoteQuorum clock =>
      obtain rfl := Option.some.inj hstep
      rw [preVoteQuorum]
      split_ifs with hs
      · exact h
      · exact promoteToCandidate_indexInv h clock (hkeep (not_not.mp hs))
    | voteQuorum clock term =>
      obtain rfl := Option.some.inj hstep
      rw [voteQuorum]
      split_ifs
      · exact becomeLeader_indexInv h clock
      · exact h
    | voteRefused term reply =>
      obtain rfl := Option.some.inj hstep
      rw [voteRefused]
      split_ifs with hlt
      · exact stepDown_indexInv h (hkeep hlt)
      · exact h
    | coordinatorStepDown leaderTerm resp =>
      obtain rfl := Option.some.inj hstep
      rw [coordinatorStepDown]
      split_ifs with hlt hs
      · exact stepDown_indexInv h (hkeep hlt hs)
      · exact h
      · exact h
    | syncAlone clock =>
      obtain rfl := Option.some.inj hstep
      rw [syncAlone]
      split_ifs
      · exact maybeCommit_indexInv h clock
      · exact h
    | appendReply clock peer args reply =>
      obtain rfl := Option.some.inj hstep
      exact appendReply_indexInv h clock peer args reply

/-! ## Runs -/

/-- A node that starts on an empty log file, without a snapshot. -/
theorem new_indexInv {raftAddr : String} {peers : List String} {sm : StateMachine}
    {storage : RaftStorage} {clock : Clock} (hwal : storage.wal = [])
    (hsnap : storage.snapshot = none) : IndexInvC (new raftAddr peers sm storage clock) := by
  have hlog : (new raftAddr peers sm storage clock).log = [] := hwal
  refine ⟨⟨?_, ?_, ?_, Nat.zero_le _, ?_⟩, Nat.le_refl _⟩
  · rw [hlog]
    intro i e hi
    simp at hi
  · rw [hlog]
    exact List.Pairwise.nil
  · rw [hlog]
    simp
  · intro snap hs
    rw [show (new raftAddr peers sm storage clock).storage.snapshot = none from hsnap] at hs
    cases hs

/-- In every run of a node from an empty directory whose steps keep the
positions, log indices are intact in every state that is reached. -/
theorem indices_survive {raftAddr : String} {peers : List String} {sm : StateMachine}
    {storage : RaftStorage} {clock : Clock} {es : List LifeEvent} {n : RaftNode}
    (hwal : storage.wal = []) (hsnap : storage.snapshot = none)
    (halong : Along lifeStep KeepsIndices (new raftAddr peers sm storage clock) es)
    (hrun : run lifeStep (new raftAddr peers sm storage clock) es = some n) :
    IndicesSurvive n :=
  (run_invariant lifeStep_indexInv (new_indexInv hwal hsnap) halong hrun).1.survive

/-- A standalone node that sets a key and takes a snapshot of it. -/
def snapshotRun : List LifeEvent :=
  [.restart [] { now := 1, unixMs := fun _ => 1 },
    .call (.propose (.set "x" "1")),
    .call (.syncAlone { now := 2, unixMs := fun _ => 2 }),
    .call (.maybeSnapshot 0)]

theorem indices_survive_snapshot :
    ∃ n, run lifeStep (freshNode "a" []) snapshotRun = some n ∧
      n.storage.snapshot.isSome = true ∧ IndicesSurvive n := by
  obtain ⟨n, hrun, hsnap⟩ : ∃ n, run lifeStep (freshNode "a" []) snapshotRun = some n ∧
      n.storage.snapshot.isSome = true := ⟨_, rfl, rfl⟩
  refine ⟨n, hrun, hsnap, indices_survive rfl rfl ?_ hrun⟩
  refine ⟨⟨rfl, ?_, List.Pairwise.nil, fun e he => (by cases he)⟩, ?_⟩
  · exact fun i e hi => by cases hi
  exact fun _ _ => ⟨trivial, fun _ _ => ⟨trivial, fun _ _ => ⟨trivial, fun _ _ => trivial⟩⟩⟩

/-- After a restart on the files of that run the log is empty, nothing counts
as applied, and the next proposal takes the index of the snapshot. -/
theorem indices_restart_after_snapshot :
    ∃ n snap,
      run lifeStep (freshNode "a" [])
          (snapshotRun ++ [.restart [] { now := 3, unixMs := fun _ => 3 }]) = some n ∧
      n.storage.snapshot = some snap ∧ snap.lastIncludedIndex = 1 ∧
      n.lastApplied = 0 ∧ n.getLastLogInfo = (0, 0) ∧
      (n.nextEntry (.set "x" "2")).index = 1 ∧ ¬IndicesSurvive n := by
  refine ⟨_, _, rfl, rfl, rfl, rfl, rfl, rfl, fun h => ?_⟩
  have := h.applied_ge _ rfl
  revert this
  decide

end RaftNode

end OxideKv
