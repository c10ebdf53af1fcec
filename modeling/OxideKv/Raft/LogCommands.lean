import OxideKv.Raft.StateMachineSafety

/-!
# What is in the logs, and what is applied

`step_advances` says what one call of a node does to its log and to its commit
index.  Two invariants of the cluster follow from it.

* `run_commandsFrom`: every command in a log or on the way was proposed.
* `run_upToCommit`: without a crash, what a node has applied is what it takes
  for committed.
-/

namespace OxideKv

open Quorum ReplicatedLog RaftNode Run

/-- The commands that a call brings to a node. -/
def NodeEvent.commands : NodeEvent → List Command
  | .propose command => [command]
  | .proposeBatch commands => commands
  | .proposeAbortTx txId => [.decideTx txId .abort]
  | .appendEntries _ args => args.entries.map LogEntry.command
  | _ => []

namespace RaftNode

/-- What a call that brings `commands` does to the log and to the commit
index. -/
structure Advances (commands : List Command) (n n' : RaftNode) : Prop where
  log : ∀ e ∈ n'.log, e ∈ n.log ∨ e.command ∈ commands
  commit : n'.commitIndex = n.commitIndex ∧ n'.lastApplied = n.lastApplied ∨
    (n.commitIndex < n'.commitIndex ∨ n'.commitIndex = n'.log.length) ∧
      n'.lastApplied = max n.lastApplied n'.commitIndex

namespace Advances

variable {commands : List Command} {n n' : RaftNode}

theorem of_same (hlog : n'.log = n.log) (hcommit : n'.commitIndex = n.commitIndex)
    (happlied : n'.lastApplied = n.lastApplied) : Advances commands n n' :=
  ⟨fun _ he => Or.inl (hlog ▸ he), Or.inl ⟨hcommit, happlied⟩⟩

theorem of_appends (h : Appends (· ∈ commands) n n') : Advances commands n n' := by
  obtain ⟨storage, entries, rfl, -, -, hmem⟩ := h
  refine ⟨fun e he => ?_, Or.inl ⟨rfl, rfl⟩⟩
  rcases List.mem_append.mp he with he | he
  · exact Or.inl he
  · exact Or.inr (hmem e he)

theorem of_roleMoved (h : RoleMoved n n') : Advances commands n n' := by
  obtain ⟨storage, -, -, -, _, _, _, _, _, rfl⟩ := h
  exact of_same rfl rfl rfl

theorem maybeCommit (clock : Clock) {n₁ : RaftNode} (hplain : PlainLog n₁.log)
    (hlog : n₁.log = n.log) (hcommit : n₁.commitIndex = n.commitIndex)
    (happlied : n₁.lastApplied = n.lastApplied) : Advances commands n (maybeCommit clock n₁) := by
  rcases maybeCommit_plain clock hplain with heq | ⟨c, sm, -, hlt, -, -, -, heq⟩ <;> rw [heq]
  · exact of_same hlog hcommit happlied
  · refine ⟨fun e he => Or.inl (hlog ▸ he), Or.inr ⟨Or.inl (hcommit ▸ hlt), ?_⟩⟩
    rw [← happlied]

theorem appendEntries (clock : Clock) {args : AppendEntriesArgs} (hplain : PlainLog n.log)
    (hentries : PlainLog args.entries) :
    Advances (args.entries.map LogEntry.command) n (handleAppendEntries clock args n).2 := by
  rcases handleAppendEntries_cases clock args n with
    ⟨-, heq⟩ | ⟨⟨hle, -⟩, ⟨-, heq⟩ | ⟨-, heq⟩⟩ <;> rw [heq]
  · exact of_same rfl rfl rfl
  · obtain ⟨storage, -, -, -, hfollow⟩ := followLeader_eq clock hle
    dsimp only
    rw [hfollow]
    exact of_same rfl rfl rfl
  · obtain ⟨sm, storage, haccept⟩ := acceptEntries_plain clock hle hplain hentries
    dsimp only
    rw [haccept]
    refine ⟨fun e he => ?_, ?_⟩
    · exact (foldl_mergeLog_subset args.entries he).imp id fun h => List.mem_map_of_mem h
    · dsimp only
      split_ifs with hlt
      · refine Or.inr ⟨?_, rfl⟩
        rcases Nat.le_total args.leaderCommit (args.entries.foldl mergeLog n.log).length with h | h
        · rw [Nat.min_eq_left h]
          exact Or.inl hlt
        · rw [Nat.min_eq_right h]
          exact Or.inr rfl
      · exact Or.inl ⟨rfl, rfl⟩

end Advances

theorem step_advances {n n' : RaftNode} {e : NodeEvent} (hplain : PlainLog n.log) (he : e.IsPlain)
    (hstep : n.step e = some n') : Advances e.commands n n' := by
  cases e with
  | propose command =>
    obtain rfl := Option.some.inj hstep
    exact .of_appends (propose_appends List.mem_cons_self n)
  | proposeBatch commands =>
    obtain rfl := Option.some.inj hstep
    exact .of_appends (proposeBatch_appends (fun _ hc => hc) n)
  | proposeAbortTx txId =>
    obtain rfl := Option.some.inj hstep
    exact .of_appends (proposeAbortTx_appends List.mem_cons_self n)
  | requestVote | preVote | becomeCandidate | enterPreVote | preVoteAlone | preVoteStale
  | preVoteQuorum | voteQuorum | voteRefused =>
    exact .of_roleMoved (step_roleMoved hstep rfl)
  | appendEntries clock args =>
    obtain rfl := Option.some.inj hstep
    exact .appendEntries clock hplain he
  | syncAlone clock =>
    obtain rfl := Option.some.inj hstep
    unfold syncAlone
    split_ifs
    · exact .maybeCommit clock hplain rfl rfl rfl
    · exact .of_same rfl rfl rfl
  | appendReply clock peer args reply =>
    obtain rfl := Option.some.inj hstep
    unfold appendReply
    dsimp only
    split_ifs
    · exact .maybeCommit clock hplain rfl rfl rfl
    · exact .of_roleMoved (stepDown_roleMoved reply.term n)
    · exact .of_same rfl rfl rfl
    · exact .of_same rfl rfl rfl
  | proposeAddNode | proposeRemoveNode | txVoteRequest | installSnapshot | coordinatorStepDown
  | maybeSnapshot => exact absurd he id

end RaftNode

/-! ## Every command was proposed -/

/-- The commands that a client or the coordinator proposes in a step. -/
def Event.commands : Event → List Command
  | .propose _ command => [command]
  | .proposeBatch _ commands => commands
  | .proposeAbortTx _ txId => [.decideTx txId .abort]
  | _ => []

/-- The commands in the logs and on the way meet `P`. -/
structure Cluster.CommandsFrom (P : Command → Prop) (s : Cluster) : Prop where
  log : ∀ p, ∀ e ∈ (s.nodes p).log, P e.command
  sent : ∀ rpc ∈ s.rpcs, ∀ args, rpc.request = .appendEntries args →
    ∀ e ∈ args.entries, P e.command

section Commands

variable {m : Membership} {s s' : Cluster} {e : Event}

theorem syncPeer_entries {n : RaftNode} {round : SyncRound} {peer : String}
    {args : AppendEntriesArgs} (h : n.syncPeer round peer = some args) :
    ∀ e ∈ args.entries, e ∈ n.log := by
  intro e he
  obtain ⟨-, -, -, -, -, ⟨-, -, hentries⟩ | ⟨-, hentries⟩⟩ := syncPeer_cases h
  · rw [hentries] at he
    exact List.mem_of_mem_drop he
  · rw [hentries] at he
    cases he

/-- What is sent in a step is a part of the log of the sender. -/
theorem step_sends (h : s.step m e = some s') :
    ∀ rpc ∈ s'.rpcs, ∀ args, rpc.request = .appendEntries args →
      (∃ rpc' ∈ s.rpcs, rpc'.request = .appendEntries args) ∨
        ∃ p, ∀ x ∈ args.entries, x ∈ (s.nodes p).log := by
  intro rpc hrpc args hargs
  have hkept : s'.rpcs = s.rpcs → (∃ rpc' ∈ s.rpcs, rpc'.request = .appendEntries args) :=
    fun heq => ⟨rpc, heq ▸ hrpc, hargs⟩
  cases e with
  | becomeCandidate p clock | becomePreCandidate p | propose p command
  | proposeBatch p commands | proposeAbortTx p txId =>
    simp only [Cluster.step] at h
    split_ifs at h
    obtain rfl := Option.some.inj h
    exact Or.inl (hkept rfl)
  | leaderCheck p =>
    simp only [Cluster.step] at h
    split_ifs at h <;> obtain rfl := Option.some.inj h <;> exact Or.inl (hkept rfl)
  | resume k clock =>
    simp only [Cluster.step, Option.map_eq_some_iff] at h
    obtain ⟨⟨p, c⟩, -, rfl⟩ := h
    have hres := Cluster.resumed clock p { s with calls := s.calls.eraseIdx k } c
    dsimp only at hrpc hres
    generalize Cluster.finish p (c.resume clock (s.nodes p))
      { s with calls := s.calls.eraseIdx k } = t at hres hrpc
    -- a round of votes or of probes sends no entries
    have hasked : ∀ {asked : List Rpc}, (∀ x ∈ asked, x.request ≠ .appendEntries args) →
        rpc ∈ s.rpcs ++ asked → ∃ rpc' ∈ s.rpcs, rpc'.request = .appendEntries args := by
      intro asked hno hmem
      rcases List.mem_append.mp hmem with hmem | hmem
      · exact ⟨rpc, hmem, hargs⟩
      · exact absurd hargs (hno rpc hmem)
    cases hres with
    | node | alone | promoted | syncs => exact Or.inl ⟨rpc, hrpc, hargs⟩
    | polls hnext =>
      refine Or.inl (hasked (fun x hx => ?_) hrpc)
      obtain ⟨q, -, rfl⟩ := List.mem_map.mp hx
      simp
    | probes =>
      refine Or.inl (hasked (fun x hx => ?_) hrpc)
      obtain ⟨q, -, rfl⟩ := List.mem_map.mp hx
      simp
    | sends hsync =>
      rcases List.mem_append.mp hrpc with hmem | hmem
      · exact Or.inl ⟨rpc, hmem, hargs⟩
      · obtain rfl := List.mem_singleton.mp hmem
        obtain rfl := Request.appendEntries.inj hargs
        exact Or.inr ⟨p, syncPeer_entries hsync⟩
  | deliver i clock =>
    simp only [Cluster.step, Option.map_eq_some_iff] at h
    obtain ⟨rpc', -, rfl⟩ := h
    exact Or.inl (hkept rfl)
  | receive j clock =>
    simp only [Cluster.step, Option.bind_eq_some_iff] at h
    obtain ⟨r, -, rpc', hrpc', h⟩ := h
    split_ifs at h
    obtain rfl := Option.some.inj h
    rw [(Cluster.process_messages clock rpc' r.2 _).1] at hrpc
    rcases List.mem_or_eq_of_mem_set hrpc with hmem | rfl
    · exact Or.inl ⟨rpc, hmem, hargs⟩
    · exact Or.inl ⟨rpc', List.mem_of_getElem? hrpc', hargs⟩
  | restart p clock =>
    simp only [Cluster.step] at h
    split_ifs at h
    obtain ⟨n, -, rfl⟩ := Option.map_eq_some_iff.mp h
    obtain ⟨rpc', hmem, rfl⟩ := List.mem_map.mp hrpc
    refine Or.inl ⟨rpc', hmem, ?_⟩
    split_ifs at hargs <;> exact hargs

/-- The commands of a call on a node come from the step or from a message. -/
theorem nodeEvent_commands {P : Command → Prop} (h : s.CommandsFrom P)
    (hP : ∀ c ∈ e.commands, P c) {p : String} {ne : NodeEvent}
    (hcall : s.nodeEvent e = some (p, ne)) : ∀ c ∈ ne.commands, P c := by
  cases Cluster.nodeCall_of_nodeEvent hcall with
  | candidate hne =>
    subst hne
    exact fun c hc => by cases hc
  | propose hne | proposeBatch hne | proposeAbortTx hne =>
    subst hne
    exact hP
  | @resume k clock c hk hne =>
    intro x hx
    cases c <;> cases hne <;> cases hx
  | @deliver i clock rpc hrpc hdst hne =>
    subst hne
    intro x hx
    cases hreq : rpc.request with
    | appendEntries args =>
      rw [hreq] at hx
      obtain ⟨entry, hentry, rfl⟩ := List.mem_map.mp hx
      exact h.sent rpc (List.mem_of_getElem? hrpc) args hreq entry hentry
    | requestVote | preVote =>
      rw [hreq] at hx
      cases hx
  | @receive j clock r rpc hj hrpc hsrc hne =>
    intro x hx
    rcases Cluster.processEvent_cases hne with ⟨term, reply, rfl⟩ | rfl | ⟨args, reply, rfl, -⟩ <;>
      cases hx

theorem step_commandsFrom {P : Command → Prop} {b : Ballots} (hv : VoteRel m b s)
    (h : s.CommandsFrom P) (hP : ∀ c ∈ e.commands, P c)
    (hcrash : ∀ p clock, e ≠ .restart p clock) (hstep : s.step m e = some s') :
    s'.CommandsFrom P := by
  refine ⟨fun p x hx => ?_, fun rpc hrpc args hargs x hx => ?_⟩
  · rcases Cluster.step_node hstep p with heq | ⟨ne, hne, hnstep⟩ | ⟨clock, he, -⟩
    · rw [heq] at hx
      exact h.log p x hx
    · have hmoves := step_advances (hv.static p).plain (nodeEvent_isPlain hv hstep hne) hnstep
      rcases hmoves.log x hx with hold | hnew
      · exact h.log p x hold
      · exact nodeEvent_commands h hP hne _ hnew
    · exact absurd he (hcrash p clock)
  · rcases step_sends hstep rpc hrpc args hargs with ⟨rpc', hmem, hargs'⟩ | ⟨p, hlog⟩
    · exact h.sent rpc' hmem args hargs' x hx
    · exact h.log p x (hlog x hx)

theorem start_commandsFrom (P : Command → Prop) (m : Membership) :
    (Cluster.start m).CommandsFrom P :=
  ⟨fun _ _ hx => (by cases hx), fun _ hrpc => (by cases hrpc)⟩

end Commands

/-! ## What is applied -/

section Applied

variable {f : RaftNode → Nat} {m : Membership} {a : Past} {fed : String → List LogEntry}
  {s s' : Cluster} {e : Event}

/-- A node has applied what it takes for committed. -/
def Cluster.UpToCommit (s : Cluster) : Prop :=
  ∀ p, (s.nodes p).lastApplied = (s.nodes p).commitIndex

theorem step_upToCommit (hf : IsSlack f) (h : ClusterRel f m a fed s)
    (hholds : ∀ p, Holds m a (fed p) (s.nodes p)) (hup : s.UpToCommit) (hstand : LogsStand f s e)
    (hstep : s.step m e = some s') : s'.UpToCommit := by
  obtain ⟨a', fed', -, hfed, -, h', hholds'⟩ := step_clusterRel hf h hstand hstep
  intro p
  rcases Cluster.step_node hstep p with heq | ⟨ne, hne, hnstep⟩ | ⟨clock, rfl, -⟩
  · rw [heq]
    exact hup p
  · have hplain := nodeEvent_isPlain h.votes hstep hne
    have hcommit := (step_advances (h.votes.static p).plain hplain hnstep).commit
    have hlog : (s.nodes p).lastApplied ≤ (s'.nodes p).log.length := by
      rw [← (h.stores p).length]
      exact ((hfed p).trans (hholds' p (hholds p)).1).length_le
    have hup := hup p
    rcases hcommit with ⟨hcommit, happlied⟩ | ⟨hcommit | hcommit, happlied⟩ <;> omega
  · exact absurd trivial hstand.votes.1

end Applied

/-! ## Runs without crashes -/

section Runs

variable {f : RaftNode → Nat} {m : Membership} {es : List Event} {s s' : Cluster}

/-- A cluster with a replicated log behind it, of which every node holds what
it has applied. -/
def LogBacked (f : RaftNode → Nat) (m : Membership) (s : Cluster) : Prop :=
  ∃ a fed, ClusterRel f m a fed s ∧ ∀ p, Holds m a (fed p) (s.nodes p)

theorem start_logBacked (f : RaftNode → Nat) (m : Membership) : LogBacked f m (Cluster.start m) :=
  ⟨_, _, start_clusterRel f m, start_holds m⟩

theorem step_logBacked (hf : IsSlack f) (h : LogBacked f m s) {e : Event} (hstand : LogsStand f s e)
    (hstep : s.step m e = some s') : LogBacked f m s' := by
  obtain ⟨a, fed, hrel, hholds⟩ := h
  obtain ⟨a', fed', -, -, -, hrel', hholds'⟩ := step_clusterRel hf hrel hstand hstep
  exact ⟨a', fed', hrel', fun p => hholds' p (hholds p)⟩

theorem run_logBacked (hf : IsSlack f)
    (halong : Along (Cluster.step m) (LogsStand f) (Cluster.start m) es)
    (hrun : run (Cluster.step m) (Cluster.start m) es = some s) : LogBacked f m s :=
  run_invariant (fun h hstand hstep => step_logBacked hf h hstand hstep) (start_logBacked f m)
    halong hrun

/-- A node has applied what it takes for committed. -/
theorem run_upToCommit (hf : IsSlack f)
    (halong : Along (Cluster.step m) (LogsStand f) (Cluster.start m) es)
    (hrun : run (Cluster.step m) (Cluster.start m) es = some s) : s.UpToCommit := by
  have hinv : LogBacked f m s ∧ s.UpToCommit := by
    refine run_invariant (I := fun s => LogBacked f m s ∧ s.UpToCommit) ?_
      ⟨start_logBacked f m, fun _ => rfl⟩ halong hrun
    rintro s s' e ⟨h, hup⟩ hstand hstep
    refine ⟨step_logBacked hf h hstand hstep, ?_⟩
    obtain ⟨a, fed, hrel, hholds⟩ := h
    exact step_upToCommit hf hrel hholds hup hstand hstep
  exact hinv.2

/-- Every command in a log or on the way was proposed. -/
theorem run_commandsFrom {P : Command → Prop} (hf : IsSlack f)
    (halong : Along (Cluster.step m) (LogsStand f) (Cluster.start m) es)
    (hP : ∀ e ∈ es, ∀ c ∈ e.commands, P c)
    (hrun : run (Cluster.step m) (Cluster.start m) es = some s) : s.CommandsFrom P := by
  have hinv : LogBacked f m s ∧ s.CommandsFrom P := by
    refine run_invariant (I := fun s => LogBacked f m s ∧ s.CommandsFrom P) ?_
      ⟨start_logBacked f m, start_commandsFrom P m⟩ (halong.and_forall hP) hrun
    rintro s s' e ⟨h, hcommands⟩ ⟨hstand, hPe⟩ hstep
    refine ⟨step_logBacked hf h hstand hstep, ?_⟩
    obtain ⟨a, fed, hrel, -⟩ := h
    refine step_commandsFrom hrel.votes hcommands hPe ?_ hstep
    rintro p clock rfl
    exact hstand.votes.1 trivial
  exact hinv.2

end Runs

end OxideKv
