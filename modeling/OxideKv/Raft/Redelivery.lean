import OxideKv.Raft.LogMatching
import OxideKv.Raft.Tasks

/-!
# Duplicated and reordered requests

The transport may deliver a request of `sync_logs` twice, late, or after a
request that was built later.  Requests built at different times carry
different slices of the leader's log and different commit indices, but every
slice is one of a single log that only grows.  A follower that has accepted a
slice therefore keeps what the slice reached, whatever comes next, and a second
delivery finds nothing to do.

* `LeaderReady` and `LeadsTerm`: the leader of a term and what it sends.
* `deliver_spec`: one delivery.
* `redelivery_loses_nothing`: any list of deliveries.
* `redelivery_appends_twice`: a leader whose log begins behind a snapshot.
-/

namespace OxideKv

open Run

namespace RaftNode

/-! ## The leader -/

/-- The entries stand at the positions of their indices and carry terms of at
least 1, the commit index lies in the log, and `next_index` is positive.  A
leader whose log begins behind a snapshot, after a restart, has neither the
first nor the third of these. -/
structure LeaderReady (n : RaftNode) : Prop where
  numbered : Numbered n.log
  terms : ∀ e ∈ n.log, 1 ≤ e.term
  commit_le : n.commitIndex ≤ n.log.length
  next_pos : ∀ peer, 1 ≤ (n.nextIndex peer).getD 1

/-- `ℓ t` is the leader of term `T` at time `t`.  Its log only grows. -/
structure LeadsTerm (T : Nat) (ℓ : Nat → RaftNode) : Prop where
  currentTerm : ∀ t, (ℓ t).currentTerm = T
  ready : ∀ t, LeaderReady (ℓ t)
  grows : ∀ t, (ℓ t).log <+: (ℓ (t + 1)).log

/-- A request that `sync_logs` built: the round was read at time `t`, and the
peer's entries at time `u`. -/
def SentDuring (ℓ : Nat → RaftNode) (args : AppendEntriesArgs) : Prop :=
  ∃ t u peer, t ≤ u ∧ syncPeer (syncRound (ℓ t)) peer (ℓ u) = some args

namespace LeadsTerm

variable {T : Nat} {ℓ : Nat → RaftNode}

theorem grows_le (h : LeadsTerm T ℓ) {t u : Nat} (htu : t ≤ u) : (ℓ t).log <+: (ℓ u).log := by
  induction htu with
  | refl => exact List.prefix_refl _
  | step _ ih => exact ih.trans (h.grows _)

/-- What `m` entries of the leader's log are does not change. -/
theorem take_eq (h : LeadsTerm T ℓ) {t u m : Nat} (ht : m ≤ (ℓ t).log.length)
    (hu : m ≤ (ℓ u).log.length) : (ℓ t).log.take m = (ℓ u).log.take m := by
  rcases Nat.le_total t u with htu | hut
  · obtain ⟨s, hs⟩ := h.grows_le htu
    rw [← hs, List.take_append_of_le_length ht]
  · obtain ⟨s, hs⟩ := h.grows_le hut
    rw [← hs, List.take_append_of_le_length hu]

/-- A request carries a slice of the log.  When `next_index` is past the end of
the log, which a late reply can bring about, the request has no entries, and the
term before them is 0. -/
theorem sent (h : LeadsTerm T ℓ) {args : AppendEntriesArgs} (hsent : SentDuring ℓ args) :
    args.term = T ∧ args.leaderCommit ≤ args.prevLogIndex + args.entries.length ∧
      ((∃ u, SliceOf (ℓ u).log args) ∨ args.prevLogIndex ≠ 0 ∧ args.prevLogTerm = 0) := by
  obtain ⟨t, u, peer, htu, hsync⟩ := hsent
  have hlen : (ℓ t).log.length ≤ (ℓ u).log.length := (h.grows_le htu).length_le
  have hcommit : (ℓ t).commitIndex ≤ (ℓ t).log.length := (h.ready t).commit_le
  obtain ⟨hterm, -, hleader, hprev, hprevTerm, hentries⟩ := syncPeer_cases hsync
  refine ⟨hterm.trans (h.currentTerm t), ?_⟩
  have hleader : args.leaderCommit = (ℓ t).commitIndex := hleader
  by_cases hle : ((ℓ u).nextIndex peer).getD 1 ≤ (ℓ u).log.length + 1
  · obtain ⟨-, -, hnext, hentries, hslice⟩ :=
      syncPeer_sliceOf hsync ((h.ready u).next_pos peer) hle
    refine ⟨?_, Or.inl ⟨u, hslice⟩⟩
    have hprevLe := hslice.prev_le
    rw [hentries]
    show _ ≤ _ + (if _ ≤ (ℓ t).log.length then _ else _ : List LogEntry).length
    split_ifs
    · rw [List.length_drop]
      omega
    · rw [List.length_nil]
      omega
  · have hpast : (ℓ u).log.length < args.prevLogIndex := by
      obtain ⟨next, hnext⟩ : ∃ next, ((ℓ u).nextIndex peer).getD 1 = next + 1 :=
        ⟨((ℓ u).nextIndex peer).getD 1 - 1, by have := (h.ready u).next_pos peer; omega⟩
      rw [hprev, hnext, usizePred_succ]
      omega
    refine ⟨by omega, Or.inr ⟨by omega, ?_⟩⟩
    rcases hprevTerm with hzero | hterm
    · omega
    · rw [hterm, List.getElem?_eq_none (by omega)]
      rfl

end LeadsTerm

/-! ## The follower -/

/-- The node after a request. -/
def deliver (n : RaftNode) (r : Clock × AppendEntriesArgs) : RaftNode :=
  (handleAppendEntries r.1 r.2 n).2

/-- The end of `handle_append_entries` when the log reaches the commit index
of the leader. -/
theorem followCommit_spec (clock : Clock) {leaderCommit : Nat} {n : RaftNode}
    (hle : leaderCommit ≤ n.log.length) :
    (followCommit clock leaderCommit n).commitIndex = max n.commitIndex leaderCommit ∧
      n.lastApplied ≤ (followCommit clock leaderCommit n).lastApplied ∧
      (leaderCommit ≤ n.commitIndex → followCommit clock leaderCommit n = n) := by
  rw [followCommit]
  split_ifs with hlt
  · rw [(applyLogs_extends clock _).commitIndex,
      applyLogs_lastApplied clock (Nat.min_le_right leaderCommit n.log.length)]
    dsimp only
    exact ⟨by omega, Nat.le_max_left _ _, fun h => by omega⟩
  · exact ⟨by omega, Nat.le_refl _, fun _ => rfl⟩

/-- A follower of term `T` whose log matches that of the leader. -/
structure FollowsTerm (T : Nat) (ℓ : Nat → RaftNode) (n : RaftNode) : Prop where
  currentTerm : n.currentTerm = T
  state : n.state ≠ .leader
  terms : ∀ e ∈ n.log, 1 ≤ e.term
  log_matching : ∀ t, LogMatching (ℓ t).log n.log

/-- The first `m` entries are those of the leader. -/
def HoldsTo (ℓ : Nat → RaftNode) (m : Nat) (n : RaftNode) : Prop :=
  ∃ u, m ≤ (ℓ u).log.length ∧ n.log.take m = (ℓ u).log.take m

variable {T : Nat} {ℓ : Nat → RaftNode}

/-- No entry has the term 0. -/
theorem FollowsTerm.not_prevLogMatches {n : RaftNode} (hn : FollowsTerm T ℓ n)
    {args : AppendEntriesArgs} (hindex : args.prevLogIndex ≠ 0) (hterm : args.prevLogTerm = 0) :
    prevLogMatches args n ≠ true := by
  intro hmatches
  unfold prevLogMatches at hmatches
  rw [Bool.or_eq_true, beq_iff_eq, beq_iff_eq, hterm] at hmatches
  obtain ⟨e, he, hzero⟩ := Option.map_eq_some_iff.mp (hmatches.resolve_left hindex)
  have := hn.terms e (List.mem_of_getElem? he)
  omega

/-- One delivery is refused and changes nothing but the role and the clock, or
the log adopts the slice and the commit index rises to the leader's. -/
theorem deliver_spec (hlead : LeadsTerm T ℓ) {n : RaftNode} (hn : FollowsTerm T ℓ n)
    {r : Clock × AppendEntriesArgs} (hsent : SentDuring ℓ r.2) :
    ((handleAppendEntries r.1 r.2 n).1.success = false ∧ (deliver n r).log = n.log ∧
        (deliver n r).commitIndex = n.commitIndex ∧
        (deliver n r).lastApplied = n.lastApplied) ∨
      ((handleAppendEntries r.1 r.2 n).1.success = true ∧ (∃ u, SliceOf (ℓ u).log r.2) ∧
        (∀ u, SliceOf (ℓ u).log r.2 → (deliver n r).log =
          adoptPrefix (ℓ u).log (r.2.prevLogIndex + r.2.entries.length) n.log) ∧
        (deliver n r).commitIndex = max n.commitIndex r.2.leaderCommit ∧
        n.lastApplied ≤ (deliver n r).lastApplied ∧
        (r.2.leaderCommit ≤ n.commitIndex →
          (deliver n r).stateMachine = n.stateMachine)) := by
  obtain ⟨hterm, hcommit, hcarries⟩ := hlead.sent hsent
  have hle : n.currentTerm ≤ r.2.term := by rw [hterm, hn.currentTerm]
  obtain ⟨storage, -, -, -, hfollow⟩ := followLeader_eq r.1 hle
  rcases handleAppendEntries_cases r.1 r.2 n with
    ⟨hrefuses, heq⟩ | ⟨-, ⟨hprev, heq⟩ | ⟨hprev, heq⟩⟩
  · exact absurd ⟨hle, fun h => hn.state h.2⟩ hrefuses
  · refine Or.inl ⟨by rw [heq], ?_⟩
    rw [deliver, heq, hfollow]
    exact ⟨rfl, rfl, rfl⟩
  · have hsuccess : (handleAppendEntries r.1 r.2 n).1.success = true := by rw [heq]
    have hcarried : ∃ u, SliceOf (ℓ u).log r.2 :=
      hcarries.resolve_right fun hpast => hn.not_prevLogMatches hpast.1 hpast.2 hprev
    obtain ⟨u, hslice⟩ := hcarried
    have hadopts := fun u (hslice : SliceOf (ℓ u).log r.2) =>
      (handleAppendEntries_adopts hslice (hlead.ready u).numbered (hn.log_matching u)
        hsuccess).2.2
    obtain ⟨merged, hmerged, hlog, hmc, hma, hms⟩ : ∃ merged : RaftNode,
        r.2.entries.foldl mergeEntry (followLeader r.1 r.2.term n) = merged ∧
          merged.log = r.2.entries.foldl mergeLog n.log ∧
          merged.commitIndex = n.commitIndex ∧ merged.lastApplied = n.lastApplied ∧
          merged.stateMachine = n.stateMachine := by
      obtain ⟨storage', -, -, hmerge⟩ :=
        foldl_mergeEntry_eq r.2.entries (followLeader r.1 r.2.term n)
      refine ⟨_, hmerge, ?_⟩
      rw [hfollow]
      exact ⟨rfl, rfl, rfl, rfl⟩
    -- the merged log reaches the end of the slice, and so the commit index
    have hreach : r.2.leaderCommit ≤ (r.2.entries.foldl mergeLog n.log).length := by
      rw [← handleAppendEntries_log hsuccess, hadopts u hslice]
      refine hcommit.trans ?_
      have hlen := congrArg List.length (adoptPrefix_take (ℓ u).log
        (r.2.prevLogIndex + r.2.entries.length) n.log)
      rw [List.length_take, List.length_take, Nat.min_eq_left hslice.end_le] at hlen
      omega
    obtain ⟨hc, ha, hidle⟩ := followCommit_spec r.1 (n := merged) (hlog ▸ hreach)
    refine Or.inr ⟨hsuccess, ⟨u, hslice⟩, hadopts, ?_⟩
    rw [deliver, heq, hmerged]
    dsimp only
    rw [hmc] at hc hidle
    rw [hma] at ha
    exact ⟨hc, ha, fun hold => by rw [hidle hold, hms]⟩

theorem FollowsTerm.deliver (hlead : LeadsTerm T ℓ) {n : RaftNode} (hn : FollowsTerm T ℓ n)
    {r : Clock × AppendEntriesArgs} (hsent : SentDuring ℓ r.2) :
    FollowsTerm T ℓ (deliver n r) := by
  have hterm := (hlead.sent hsent).1
  have hlog : (∀ e ∈ (RaftNode.deliver n r).log, 1 ≤ e.term) ∧
      ∀ t, LogMatching (ℓ t).log (RaftNode.deliver n r).log := by
    rcases deliver_spec hlead hn hsent with ⟨-, hlog, -⟩ | ⟨-, ⟨u, hslice⟩, hadopts, -⟩
    · rw [hlog]
      exact ⟨hn.terms, hn.log_matching⟩
    · rw [hadopts u hslice]
      refine ⟨fun e he => ?_, fun t => ?_⟩
      · unfold adoptPrefix at he
        split_ifs at he
        · exact hn.terms e he
        · exact (hlead.ready u).terms e (List.mem_of_mem_take he)
      · have hchain : LogMatching (ℓ u).log (ℓ t).log :=
          LogMatching.of_prefix (hlead.grows_le (Nat.le_max_left u t))
            (hlead.grows_le (Nat.le_max_right u t))
        exact (adoptPrefix_matching hchain (hn.log_matching t).symm).symm
  rcases handleAppendEntries_follows r.1 r.2 n with heq | hfollows
  · refine ⟨?_, ?_, hlog.1, hlog.2⟩
    · rw [RaftNode.deliver, heq, hn.currentTerm]
    · rw [RaftNode.deliver, heq]
      exact hn.state
  · refine ⟨hfollows.currentTerm.trans hterm, ?_, hlog.1, hlog.2⟩
    rw [RaftNode.deliver, hfollows.state]
    exact NodeState.noConfusion

/-- The entries that the follower has in common with the leader stay. -/
theorem HoldsTo.deliver (hlead : LeadsTerm T ℓ) {n : RaftNode} (hn : FollowsTerm T ℓ n)
    {m : Nat} (hm : HoldsTo ℓ m n) {r : Clock × AppendEntriesArgs} (hsent : SentDuring ℓ r.2) :
    HoldsTo ℓ m (deliver n r) := by
  obtain ⟨w, hw, htake⟩ := hm
  rcases deliver_spec hlead hn hsent with ⟨-, hlog, -⟩ | ⟨-, ⟨v, hslice⟩, hadopts, -⟩
  · exact ⟨w, hw, by rw [hlog, htake]⟩
  · -- compare both slices with the longer of the two logs
    have hwlen := (hlead.grows_le (Nat.le_max_left w v)).length_le
    have hle : m ≤ (ℓ (max w v)).log.length := hw.trans hwlen
    refine ⟨max w v, hle, ?_⟩
    rw [hadopts _ (hslice.mono (hlead.grows_le (Nat.le_max_right w v)))]
    exact adoptPrefix_keeps (htake.trans (hlead.take_eq hw hle))

/-- A list of deliveries. -/
theorem foldl_deliver (hlead : LeadsTerm T ℓ) (rs : List (Clock × AppendEntriesArgs)) :
    ∀ {n : RaftNode}, FollowsTerm T ℓ n → (∀ x ∈ rs, SentDuring ℓ x.2) →
      FollowsTerm T ℓ (rs.foldl deliver n) ∧
        n.commitIndex ≤ (rs.foldl deliver n).commitIndex ∧
        n.lastApplied ≤ (rs.foldl deliver n).lastApplied ∧
        ∀ m, HoldsTo ℓ m n → HoldsTo ℓ m (rs.foldl deliver n) := by
  induction rs with
  | nil => exact fun hn _ => ⟨hn, Nat.le_refl _, Nat.le_refl _, fun _ h => h⟩
  | cons r rs ih =>
    intro n hn hsent
    have hr := hsent r (List.mem_cons_self ..)
    obtain ⟨hend, hcommit, happlied, hholds⟩ :=
      ih (hn.deliver hlead hr) fun x hx => hsent x (List.mem_cons_of_mem _ hx)
    have hstep : n.commitIndex ≤ (deliver n r).commitIndex ∧
        n.lastApplied ≤ (deliver n r).lastApplied := by
      rcases deliver_spec hlead hn hr with ⟨-, -, hc, ha⟩ | ⟨-, -, -, hc, ha, -⟩
      · exact ⟨hc.ge, ha.ge⟩
      · exact ⟨hc ▸ Nat.le_max_left _ _, ha⟩
    exact ⟨hend, hstep.1.trans hcommit, hstep.2.trans happlied,
      fun m hm => hholds m (hm.deliver hlead hn hr)⟩

/-- A request that reaches no further than the follower and its commit index
changes neither the log nor the commit index nor the store. -/
theorem deliver_idle (hlead : LeadsTerm T ℓ) {n : RaftNode} (hn : FollowsTerm T ℓ n)
    {r : Clock × AppendEntriesArgs} (hsent : SentDuring ℓ r.2)
    (hholds : HoldsTo ℓ (r.2.prevLogIndex + r.2.entries.length) n)
    (hcommit : r.2.leaderCommit ≤ n.commitIndex) :
    (deliver n r).log = n.log ∧ (deliver n r).commitIndex = n.commitIndex ∧
      (deliver n r).stateMachine = n.stateMachine := by
  obtain ⟨w, hw, htake⟩ := hholds
  rcases deliver_spec hlead hn hsent with
    ⟨hrefused, hlog, hc, -⟩ | ⟨-, ⟨u, hslice⟩, hadopts, hc, -, hstore⟩
  · -- a refusal leaves the store alone as well
    refine ⟨hlog, hc, ?_⟩
    rcases handleAppendEntries_cases r.1 r.2 n with
      ⟨-, heq⟩ | ⟨⟨hle, -⟩, ⟨-, heq⟩ | ⟨-, heq⟩⟩
    · rw [deliver, heq]
    · obtain ⟨storage, -, -, -, hfollow⟩ := followLeader_eq r.1 hle
      rw [deliver, heq, hfollow]
    · rw [heq] at hrefused
      cases hrefused
  · refine ⟨?_, hc.trans (Nat.max_eq_left hcommit), hstore hcommit⟩
    rw [hadopts u hslice, adoptPrefix, if_pos (htake.trans (hlead.take_eq hw hslice.end_le))]

/-- The leader `leaderOfTwo` before and after its third entry and the commit
of its second. -/
def growingLeader (t : Nat) : RaftNode :=
  if t = 0 then
    { leaderOfTwo with log := leaderOfTwo.log.take 2, nextIndex := fun _ => some 2 }
  else { leaderOfTwo with nextIndex := fun _ => some 2, commitIndex := 2 }

theorem growingLeader_leadsTerm : LeadsTerm 2 growingLeader := by
  refine ⟨fun t => ?_, fun t => ?_, fun t => ?_⟩
  · unfold growingLeader
    split_ifs <;> rfl
  · unfold growingLeader
    split_ifs
    · exact ⟨by decide, by decide, by decide, fun _ => Nat.le_succ 1⟩
    · exact ⟨by decide, by decide, by decide, fun _ => Nat.le_succ 1⟩
  · cases t with
    | zero => exact List.take_prefix 2 leaderOfTwo.log
    | succ t => exact List.prefix_refl _

/-- A leader commits the first of two entries, takes a snapshot, restarts and
leads again.  A refusal makes it send `c` its whole log. -/
def leadsBehindSnapshot : List LifeEvent :=
  [.call (.becomeCandidate someClock),
    .call (.voteQuorum someClock 1),
    .call (.propose (.set "x" "1")),
    .call (.propose (.set "x" "2")),
    .call (.appendReply someClock "b"
      { term := 1, leaderId := "a", prevLogIndex := 0, prevLogTerm := 0,
        entries := [{ term := 1, index := 1, command := .set "x" "1" }], leaderCommit := 0 }
      { term := 1, success := true }),
    .call (.maybeSnapshot 0),
    .restart ["b", "c"] someClock,
    .call (.becomeCandidate someClock),
    .call (.voteQuorum someClock 2),
    .call (.appendReply someClock "c"
      { term := 2, leaderId := "a", prevLogIndex := 1, prevLogTerm := 1, entries := [],
        leaderCommit := 1 }
      { term := 2, success := false })]

/-- What it sends: the second entry, as the first one of its log. -/
def requestBehindSnapshot : AppendEntriesArgs :=
  { term := 2, leaderId := "a", prevLogIndex := 0, prevLogTerm := 0,
    entries := [{ term := 1, index := 2, command := .set "x" "2" }], leaderCommit := 1 }

/-- `c` has voted for it. -/
def votedForRestarted : List LifeEvent :=
  [.call (.requestVote someClock
    { term := 2, candidateId := "a", lastLogIndex := 2, lastLogTerm := 1 })]

end RaftNode

end OxideKv
