import OxideKv.Raft.Effect
import OxideKv.Raft.LogRelation

/-!
# What the state machines have applied

The entries that `apply_logs` takes are those between `last_applied` and
`commit_index` (`Feeds`).  `NodeStore` says what the state machine of a node is
then: the effect of a committed list of entries of the length `last_applied`.
-/

namespace OxideKv

open Quorum ReplicatedLog RaftNode Run StateMachine LastWrite

namespace RaftNode

/-! ## The loop of `apply_logs` -/

/-- The call applies what is committed. -/
structure Feeds (n n' : RaftNode) : Prop where
  applied : n'.lastApplied = max n.lastApplied n'.commitIndex
  store : Layout n.stateMachine →
    Applied (((n'.log.take n'.commitIndex).drop n.lastApplied).map LogEntry.command) n n'

theorem applyLoop_applied (clock : Clock) (fuel : Nat) :
    ∀ {n : RaftNode}, PlainLog n.log → n.commitIndex ≤ n.log.length →
      fuel = n.commitIndex - n.lastApplied → Layout n.stateMachine →
      Applied (((n.log.take n.commitIndex).drop n.lastApplied).map LogEntry.command) n
        (applyLoop clock fuel n) := by
  induction fuel with
  | zero =>
    intro n _ hle hfuel hlayout
    rw [List.drop_of_length_le (by rw [List.length_take]; omega)]
    exact Applied.nil hlayout
  | succ fuel ih =>
    intro n hplain hle hfuel hlayout
    have hlt : n.lastApplied < n.commitIndex := by omega
    have hin : n.lastApplied < (n.log.take n.commitIndex).length := by
      rw [List.length_take]
      omega
    have hget : n.log[n.lastApplied]? = some (n.log.take n.commitIndex)[n.lastApplied] := by
      rw [← List.getElem?_eq_getElem hin, List.getElem?_take_of_lt hlt]
    have hentry := hplain _ (List.mem_of_getElem? hget)
    unfold applyLoop
    rw [if_pos hlt, hget]
    dsimp only
    rw [applyCommand_plain _ hentry, List.drop_eq_getElem_cons hin, List.map_cons]
    have hfirst := applyCommand_ok hlayout (clock.unixMs n.lastApplied)
      (n.log.take n.commitIndex)[n.lastApplied].command
    rw [applyCommand_plain _ hentry] at hfirst
    have hrest := @ih
      { applyStore (clock.unixMs n.lastApplied)
          (n.log.take n.commitIndex)[n.lastApplied].command n with
        lastApplied := n.lastApplied + 1 } hplain hle
      (by show fuel = n.commitIndex - (n.lastApplied + 1); omega) hfirst.writes.layout
    exact hfirst.trans ⟨hrest.writes, hrest.staged, hrest.config⟩

/-- `apply_logs` applies the committed entries from `last_applied` on. -/
theorem applyLogs_feeds (clock : Clock) {n : RaftNode} (hplain : PlainLog n.log)
    (hle : n.commitIndex ≤ n.log.length) : Feeds n (applyLogs clock n) := by
  obtain ⟨sm, heq⟩ := applyLogs_plain clock hplain hle
  refine ⟨?_, fun hlayout => ?_⟩
  · rw [heq]
  · have happ := applyLoop_applied clock (n.commitIndex - n.lastApplied) hplain hle rfl hlayout
    have hsame : applyLogs clock n = applyLoop clock (n.commitIndex - n.lastApplied) n := rfl
    rw [← hsame] at happ
    rw [show (applyLogs clock n).log = n.log by rw [heq],
      show (applyLogs clock n).commitIndex = n.commitIndex by rw [heq]]
    exact happ

/-- The store is as before, and so is `last_applied`. -/
def Rests (n n' : RaftNode) : Prop :=
  n'.lastApplied = n.lastApplied ∧ n'.stateMachine = n.stateMachine

/-- `apply_logs` after changes that have nothing to do with the store. -/
theorem Feeds.of_rests {n n₁ n' : RaftNode} (h : Feeds n₁ n') (hrests : Rests n n₁)
    (hconfig : n₁.currentConfig = n.currentConfig) : Feeds n n' := by
  obtain ⟨happlied, hstore⟩ := hrests
  refine ⟨by rw [h.applied, happlied], fun hlayout => ?_⟩
  have happ := h.store (by rw [hstore]; exact hlayout)
  rw [happlied] at happ
  refine ⟨?_, ?_, ?_⟩
  · rw [← hstore]
    exact happ.writes
  · rw [← hstore]
    exact happ.staged
  · rw [← hconfig]
    exact happ.config

theorem maybeCommit_feeds (clock : Clock) {n : RaftNode} (hplain : PlainLog n.log) :
    Rests n (maybeCommit clock n) ∨ Feeds n (maybeCommit clock n) := by
  rcases maybeCommit_cases clock n with heq | ⟨c, -, -, hle, -, -, heq⟩ <;> rw [heq]
  · exact Or.inl ⟨rfl, rfl⟩
  · have hfeeds := @applyLogs_feeds clock { n with commitIndex := c } hplain hle
    exact Or.inr (hfeeds.of_rests ⟨rfl, rfl⟩ rfl)

theorem handleAppendEntries_feeds (clock : Clock) {args : AppendEntriesArgs} {n : RaftNode}
    (hplain : PlainLog n.log) (hentries : PlainLog args.entries) :
    Rests n (handleAppendEntries clock args n).2 ∨
      Feeds n (handleAppendEntries clock args n).2 := by
  rcases handleAppendEntries_cases clock args n with
    ⟨_, heq⟩ | ⟨⟨hle, _⟩, ⟨_, heq⟩ | ⟨_, heq⟩⟩ <;> rw [heq]
  · exact Or.inl ⟨rfl, rfl⟩
  · obtain ⟨storage, -, -, -, hfollow⟩ := followLeader_eq clock hle
    rw [hfollow]
    exact Or.inl ⟨rfl, rfl⟩
  · obtain ⟨storage, -, -, -, hfollow⟩ := followLeader_eq clock hle
    obtain ⟨storage', -, -, hmerge⟩ :=
      foldl_mergeEntry_eq args.entries (followLeader clock args.term n)
    rw [hmerge, hfollow]
    unfold followCommit
    dsimp only
    by_cases hcommit : n.commitIndex < args.leaderCommit
    · rw [if_pos hcommit]
      refine Or.inr
        (Feeds.of_rests (applyLogs_feeds clock ?_ (Nat.min_le_right _ _)) ⟨rfl, rfl⟩ rfl)
      exact plainLog_merge hplain hentries
    · rw [if_neg hcommit]
      exact Or.inl ⟨rfl, rfl⟩

/-- Only `maybe_commit` and `handle_append_entries` apply entries. -/
theorem step_feeds {n n' : RaftNode} {e : NodeEvent} (hplain : PlainLog n.log) (he : e.IsPlain)
    (hstep : n.step e = some n') : Rests n n' ∨ Feeds n n' := by
  have hself : Rests n n := ⟨rfl, rfl⟩
  cases e with
  | propose command =>
    obtain rfl := Option.some.inj hstep
    obtain ⟨storage, entries, heq, -⟩ := propose_appends (P := fun c => c.isPlain = true) he n
    rw [heq]
    exact Or.inl ⟨rfl, rfl⟩
  | proposeBatch commands =>
    obtain rfl := Option.some.inj hstep
    obtain ⟨storage, entries, heq, -⟩ :=
      proposeBatch_appends (P := fun c => c.isPlain = true) he n
    rw [heq]
    exact Or.inl ⟨rfl, rfl⟩
  | proposeAbortTx txId =>
    obtain rfl := Option.some.inj hstep
    obtain ⟨storage, entries, heq, -⟩ :=
      proposeAbortTx_appends (P := fun c => c.isPlain = true) rfl n
    rw [heq]
    exact Or.inl ⟨rfl, rfl⟩
  | requestVote | preVote | becomeCandidate | enterPreVote | preVoteAlone | preVoteStale
  | preVoteQuorum | voteQuorum | voteRefused =>
    obtain ⟨storage, -, -, -, _, _, _, _, _, rfl⟩ := step_roleMoved hstep rfl
    exact Or.inl ⟨rfl, rfl⟩
  | appendEntries clock args =>
    obtain rfl := Option.some.inj hstep
    exact handleAppendEntries_feeds clock hplain he
  | syncAlone clock =>
    obtain rfl := Option.some.inj hstep
    unfold syncAlone
    split_ifs
    · exact maybeCommit_feeds clock hplain
    · exact Or.inl hself
  | appendReply clock peer args reply =>
    obtain rfl := Option.some.inj hstep
    unfold appendReply
    dsimp only
    split_ifs
    · have hcommit := @maybeCommit_feeds clock
        { n with
          matchIndex := insertIndex n.matchIndex peer (args.prevLogIndex + args.entries.length)
          nextIndex := insertIndex n.nextIndex peer (args.prevLogIndex + args.entries.length + 1)
          lastQuorumHeartbeatAt := some clock.now } hplain
      exact hcommit.imp id fun hfeeds => hfeeds.of_rests ⟨rfl, rfl⟩ rfl
    · obtain ⟨storage, -, -, -, heq⟩ := stepDown_eq reply.term n
      rw [heq]
      exact Or.inl ⟨rfl, rfl⟩
    · exact Or.inl ⟨rfl, rfl⟩
    · exact Or.inl hself
  | proposeAddNode | proposeRemoveNode | txVoteRequest | installSnapshot | coordinatorStepDown
  | maybeSnapshot => exact absurd he id

end RaftNode

/-! ## The stores of a cluster -/

/-- The map that the entries leave behind. -/
def logEffect (l : List LogEntry) (key : String) : Option String :=
  lastWrite (logWrites Staged.none (l.map LogEntry.command)) key

/-- The state machine is the effect of the committed entries `l`, and
`last_applied` counts them. -/
structure NodeStore (m : Membership) (a : Past) (l : List LogEntry) (n : RaftNode) : Prop where
  length : l.length = n.lastApplied
  committed : ∃ B, Committed (majority m.members) LogEntry.term a B l
  layout : Layout n.stateMachine
  durable : Durable n.stateMachine
  contents : ∀ key, n.stateMachine.contents key = logEffect l key
  staged : n.stateMachine.staged = logStaged Staged.none (l.map LogEntry.command)

section NodeStores

variable {m : Membership} {a a' : Past} {l l' : List LogEntry} {n n' : RaftNode}

theorem NodeStore.grows (h : NodeStore m a l n) (hg : Grows a a') : NodeStore m a' l n := by
  obtain ⟨B, hB⟩ := h.committed
  exact ⟨h.length, ⟨B, hB.grows hg le_rfl⟩, h.layout, h.durable, h.contents, h.staged⟩

/-- Commands after those of `l`. -/
theorem NodeStore.append (h : NodeStore m a l n) (hl : l <+: l') {B : Nat}
    (hcommitted : Committed (majority m.members) LogEntry.term a' B l')
    (happ : Applied ((l'.drop l.length).map LogEntry.command) n n')
    (hlength : l'.length = n'.lastApplied) : NodeStore m a' l' n' := by
  obtain ⟨rest, rfl⟩ := hl
  rw [List.drop_left] at happ
  have hwrites : logWrites Staged.none ((l ++ rest).map LogEntry.command) =
      logWrites Staged.none (l.map LogEntry.command) ++
        logWrites n.stateMachine.staged (rest.map LogEntry.command) := by
    rw [List.map_append, logWrites_append, h.staged]
  refine ⟨hlength, ⟨B, hcommitted⟩, happ.writes.layout, happ.writes.durable h.durable,
    fun key => ?_, ?_⟩
  · unfold logEffect
    rw [happ.writes.contents key, hwrites]
    exact lastWrite_append_congr h.contents _ key
  · rw [happ.staged, h.staged, List.map_append, logStaged_append]

/-- A call of the node. -/
theorem NodeStore.step (h : NodeStore m a l n) (hinv : Inv (majority m.members) LogEntry.term a')
    (hg : Grows a a') (hfeeds : Rests n n' ∨ Feeds n n') (hle : n'.commitIndex ≤ n'.log.length)
    {B : Nat} (hcommitted : Committed (majority m.members) LogEntry.term a' B
      (n'.log.take n'.commitIndex)) :
    ∃ l', (l' = l ∨ l' = n'.log.take n'.commitIndex) ∧ l <+: l' ∧ NodeStore m a' l' n' := by
  rcases hfeeds with ⟨happlied, hstore⟩ | hfeeds
  · refine ⟨l, Or.inl rfl, List.prefix_rfl, ?_⟩
    have h' := h.grows hg
    exact ⟨by rw [happlied]; exact h'.length, h'.committed, by rw [hstore]; exact h'.layout,
      by rw [hstore]; exact h'.durable, by rw [hstore]; exact h'.contents,
      by rw [hstore]; exact h'.staged⟩
  · have happ := hfeeds.store h.layout
    have hlen : (n'.log.take n'.commitIndex).length = n'.commitIndex := by
      rw [List.length_take]
      omega
    rcases Nat.le_total n'.commitIndex n.lastApplied with hle' | hle'
    · -- nothing new is committed
      rw [List.drop_of_length_le (by omega)] at happ
      obtain ⟨B', hB'⟩ := h.committed
      refine ⟨l, Or.inl rfl, List.prefix_rfl, h.append List.prefix_rfl (hB'.grows hg le_rfl) ?_ ?_⟩
      · rw [List.drop_length]
        exact happ
      · rw [h.length, hfeeds.applied]
        omega
    · obtain ⟨B', hB'⟩ := h.committed
      have hl : l <+: n'.log.take n'.commitIndex := by
        rcases committed_comparable hinv (hB'.grows hg le_rfl) hcommitted with hp | hp
        · exact hp
        · have hle := hp.length_le
          have hlength := h.length
          rw [hp.eq_of_length (by omega)]
      refine ⟨_, Or.inr rfl, hl, h.append hl hcommitted ?_ ?_⟩
      · rw [h.length]
        exact happ
      · rw [hlen, hfeeds.applied]
        omega

end NodeStores

/-- The node still holds the entries `l`, and they were committed by its
term. -/
def Holds (m : Membership) (a : Past) (l : List LogEntry) (n : RaftNode) : Prop :=
  l <+: n.log ∧ Committed (majority m.members) LogEntry.term a n.currentTerm l

/-- The cluster, the replicated log behind it and what its nodes have
applied. -/
structure ClusterRel (f : RaftNode → Nat) (m : Membership) (a : Past)
    (fed : String → List LogEntry) (s : Cluster) : Prop where
  votes : VoteRel m a.ballot s
  logs : LogRel f m a s
  stores : ∀ p, NodeStore m a (fed p) (s.nodes p)

theorem start_clusterRel (f : RaftNode → Nat) (m : Membership) :
    ClusterRel f m State.init (fun _ => []) (Cluster.start m) := by
  obtain ⟨hlayout, hdurable, htrace, hpending⟩ := freshStore_ok
  refine ⟨start_voteRel m, start_logRel f m, fun p => ⟨rfl, ⟨0, Committed.nil⟩, hlayout, hdurable,
    fun key => ?_, staged_of_empty hpending⟩⟩
  show lastWrite freshStore.trace key = lastWrite [] key
  rw [htrace]

section Steps

variable {f : RaftNode → Nat} {m : Membership} {a : Past} {fed : String → List LogEntry}
  {s s' : Cluster}

/-- The calls of a cluster are those of fixed membership. -/
theorem nodeEvent_isPlain {b : Ballots} (hv : VoteRel m b s) {e : Event}
    (hstep : s.step m e = some s') {p : String} {ne : NodeEvent}
    (h : s.nodeEvent e = some (p, ne)) : ne.IsPlain := by
  cases e with
  | propose q command =>
    simp only [Cluster.step] at hstep
    split_ifs at hstep with hp
    obtain ⟨-, rfl⟩ := Prod.mk.inj (Option.some.inj h)
    exact hp.2
  | proposeBatch q commands =>
    simp only [Cluster.step] at hstep
    split_ifs at hstep with hp
    obtain ⟨-, rfl⟩ := Prod.mk.inj (Option.some.inj h)
    exact List.all_eq_true.mp hp.2
  | becomeCandidate q clock =>
    obtain ⟨-, rfl⟩ := Prod.mk.inj (Option.some.inj h)
    trivial
  | proposeAbortTx q txId =>
    obtain ⟨-, rfl⟩ := Prod.mk.inj (Option.some.inj h)
    trivial
  | resume k clock =>
    simp only [Cluster.nodeEvent, Option.bind_eq_some_iff, Option.map_eq_some_iff] at h
    obtain ⟨⟨q, c⟩, -, ne', he, heq⟩ := h
    obtain ⟨-, rfl⟩ := Prod.mk.inj heq
    cases c <;> cases he <;> trivial
  | deliver i clock =>
    simp only [Cluster.nodeEvent, Option.map_eq_some_iff] at h
    obtain ⟨rpc, hrpc, heq⟩ := h
    obtain ⟨-, rfl⟩ := Prod.mk.inj heq
    have hreq := (hv.rpc rpc (List.mem_of_getElem? hrpc)).request
    cases hr : rpc.request with
    | appendEntries args =>
      rw [hr] at hreq
      exact hreq
    | _ => trivial
  | receive j clock =>
    simp only [Cluster.nodeEvent, Option.bind_eq_some_iff, Option.map_eq_some_iff] at h
    obtain ⟨r, -, rpc, -, ne', he, heq⟩ := h
    obtain ⟨-, rfl⟩ := Prod.mk.inj heq
    rcases Cluster.processEvent_cases he with ⟨term, r, rfl⟩ | rfl | ⟨args, r, rfl, -⟩ <;> trivial
  | becomePreCandidate | leaderCheck | restart => cases h

/-- What a node holds of the committed entries, it goes on to hold. -/
theorem Holds.steps {a' : Past} {l : List LogEntry} {p q : String} (h : LogRel f m a s)
    (h' : LogRel f m a' s') (hsteps : Steps (majority m.members) LogEntry.term q a a')
    (hl : Holds m a l (s.nodes p)) : Holds m a' l (s'.nodes p) := by
  have hg := (steps_inv h.inv hsteps).2.1
  have hterm := hg.term p
  rw [(h.node p).term, (h'.node p).term] at hterm
  refine ⟨?_, hl.2.grows hg hterm⟩
  rw [← (h'.node p).log]
  exact steps_keeps h.inv hsteps hl.2 (h.node p).term.ge ((h.node p).log ▸ hl.1)

/-- A step without a crash. -/
theorem step_clusterRel (hf : IsSlack f) (h : ClusterRel f m a fed s) {e : Event}
    (hstand : LogsStand f s e) (hstep : s.step m e = some s') :
    ∃ a' fed', Grows a a' ∧ (∀ p, fed p <+: fed' p) ∧
      (∀ p, fed' p = fed p ∨ fed' p = (s'.nodes p).log.take (s'.nodes p).commitIndex) ∧
      ClusterRel f m a' fed' s' ∧
      ∀ p, Holds m a (fed p) (s.nodes p) → Holds m a' (fed' p) (s'.nodes p) := by
  have hcrash : ∀ p clock, e ≠ .restart p clock := by
    rintro p clock rfl
    exact hstand.votes.1 trivial
  obtain ⟨q, a', hsteps, hballot, hlogs⟩ := step_logRel hf h.votes h.logs hstand hstep
  have hg := (steps_inv h.logs.inv hsteps).2.1
  have hvotes := step_voteRel h.votes hstand.votes.1 hstand.votes.2 hstep
  rw [← hballot] at hvotes
  rcases Cluster.step_nodes hstep hcrash with ⟨-, hnodes⟩ | ⟨p, ne, n', hne, hnstep, hnodes⟩
  · refine ⟨a', fed, hg, fun _ => List.prefix_rfl, fun _ => Or.inl rfl,
      ⟨hvotes, hlogs, fun p => ?_⟩, fun p hp => ?_⟩
    · rw [hnodes]
      exact (h.stores p).grows hg
    · exact hp.steps h.logs hlogs hsteps
  · have hnode := hlogs.node p
    rw [hnodes, Function.update_self] at hnode
    have hfeeds := step_feeds (h.votes.static p).plain (nodeEvent_isPlain h.votes hstep hne) hnstep
    obtain ⟨l', hcases, hl', hstore⟩ :=
      (h.stores p).step hlogs.inv hg hfeeds hnode.commit hnode.committed
    refine ⟨a', Function.update fed p l', hg, fun q => ?_, fun q => ?_,
      ⟨hvotes, hlogs, fun q => ?_⟩, fun q hq => ?_⟩
    · by_cases hq : q = p
      · subst hq
        rw [Function.update_self]
        exact hl'
      · rw [Function.update_of_ne hq]
    · by_cases hq : q = p
      · subst hq
        rw [hnodes, Function.update_self, Function.update_self]
        exact hcases
      · rw [Function.update_of_ne hq]
        exact Or.inl rfl
    · by_cases hq : q = p
      · subst hq
        rw [hnodes, Function.update_self, Function.update_self]
        exact hstore
      · rw [hnodes, Function.update_of_ne hq, Function.update_of_ne hq]
        exact (h.stores q).grows hg
    · have hold := hq.steps h.logs hlogs hsteps
      by_cases hqp : q = p
      · subst hqp
        rw [Function.update_self]
        rcases hcases with rfl | rfl
        · exact hold
        · rw [hnodes, Function.update_self]
          exact ⟨List.take_prefix _ _, hnode.committed⟩
      · rw [Function.update_of_ne hqp]
        exact hold

end Steps

end OxideKv
