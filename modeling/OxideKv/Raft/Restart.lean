import OxideKv.Raft.StateMachineSafety

/-!
# Crashes and restarts

A node that starts again reads its term, its vote and its log from disk and
applies the whole log (`replay_logs`), committed or not; `commit_index` starts
at zero.

The relations to the votes and to the replicated log survive a restart when
the files hold what the node had (`OnDisk`): a restarted node is a follower of
the same term, with the same vote and the same log.  The relation to the
stores survives when every entry of that log is committed and the log reaches
as far as the node has applied (`StoresSurvive`), and
`restart_exposes_committed` is about such runs.
-/

namespace OxideKv

open Quorum ReplicatedLog RaftNode Run StateMachine LastWrite

namespace RaftNode

/-- The files hold the term, the vote and the log of the node, and there is no
snapshot. -/
structure OnDisk (n : RaftNode) : Prop where
  electionState : n.storage.readMeta = (n.currentTerm, n.voteFor)
  log : n.storage.restoreWalLog = n.log
  snapshot : n.storage.snapshot.isNone = true

instance (n : RaftNode) : Decidable n.OnDisk :=
  decidable_of_iff (n.storage.readMeta = (n.currentTerm, n.voteFor) ∧
      n.storage.restoreWalLog = n.log ∧ n.storage.snapshot.isNone = true)
    ⟨fun ⟨h₁, h₂, h₃⟩ => ⟨h₁, h₂, h₃⟩, fun ⟨h₁, h₂, h₃⟩ => ⟨h₁, h₂, h₃⟩⟩

/-- `replay_logs` of a log without configurations. -/
theorem replayLogs_plain (clock : Clock) {n : RaftNode} (hplain : PlainLog n.log) :
    ∃ sm, replayLogs clock n = { n with stateMachine := sm, lastApplied := n.log.length } := by
  have hfold : ∀ (entries : List (LogEntry × Nat)), (∀ e ∈ entries, e.1.command.isPlain = true) →
      ∀ n : RaftNode, ∃ sm,
        entries.foldl (fun n e => replayCommand (clock.unixMs e.2) e.1.command n) n =
          { n with stateMachine := sm } := by
    intro entries
    induction entries with
    | nil => exact fun _ n => ⟨n.stateMachine, rfl⟩
    | cons e entries ih =>
      intro hentries n
      have hfirst : ∃ sm, replayCommand (clock.unixMs e.2) e.1.command n =
          { n with stateMachine := sm } := by
        have hplain := hentries e (List.mem_cons_self ..)
        cases hc : e.1.command with
        | installConfiguration config =>
          rw [hc] at hplain
          cases hplain
        | _ => exact ⟨_, rfl⟩
      obtain ⟨sm₁, heq₁⟩ := hfirst
      obtain ⟨sm, heq⟩ := ih (fun e' he' => hentries e' (List.mem_cons_of_mem e he'))
        (replayCommand (clock.unixMs e.2) e.1.command n)
      exact ⟨sm, by rw [List.foldl_cons, heq, heq₁]⟩
  obtain ⟨sm, heq⟩ := hfold n.log.zipIdx
    (fun e he => hplain e.1 (List.fst_mem_of_mem_zipIdx he)) n
  exact ⟨sm, by rw [replayLogs, heq]⟩

end RaftNode

/-- The start on the files that `n` left behind. -/
structure Restarted (m : Membership) (p : String) (n r : RaftNode) : Prop where
  static : Static m p r
  follower : r.state = .follower
  currentTerm : r.currentTerm = n.currentTerm
  voteFor : r.voteFor = n.voteFor
  log : r.log = n.log
  commitIndex : r.commitIndex = 0
  lastApplied : r.lastApplied = n.log.length
  store : Layout n.stateMachine → Durable n.stateMachine → ∃ n₀ : RaftNode,
    Writes n.stateMachine n₀.stateMachine [] ∧ n₀.stateMachine.pendingTxs = ∅ ∧
      Applied (n.log.map LogEntry.command) n₀ r

theorem startup_restarted {m : Membership} {p : String} {clock : Clock} {n r : RaftNode}
    (hplain : PlainLog n.log) (hdisk : n.OnDisk) (h : Cluster.startup m p clock n = some r) :
    Restarted m p n r := by
  unfold Cluster.startup at h
  split at h
  · cases h
  · rename_i sm hopen
    obtain ⟨n₁, hrestore, rfl⟩ := Option.map_eq_some_iff.mp h
    have hnone : n.storage.snapshot = none := Option.isNone_iff_eq_none.mp hdisk.snapshot
    obtain rfl := (restoreFromSnapshot_eq hrestore).1 hnone
    have hlog : (RaftNode.new p (m.peers p) sm n.storage clock).log = n.log := hdisk.log
    obtain ⟨sm', heq⟩ := @replayLogs_plain clock (RaftNode.new p (m.peers p) sm n.storage clock)
      (hlog ▸ hplain)
    refine ⟨?_, by rw [heq]; rfl, ?_, ?_, by rw [heq]; exact hlog, by rw [heq]; rfl, ?_, ?_⟩
    · rw [heq]
      exact ⟨rfl, rfl, rfl, hlog ▸ hplain⟩
    · rw [heq]
      exact congrArg Prod.fst hdisk.electionState
    · rw [heq]
      exact congrArg Prod.snd hdisk.electionState
    · rw [heq, ← hlog]
    · intro hlayout hdurable
      obtain ⟨sm₀, hopen', hwrites, hpending⟩ :=
        openStore_ok hlayout hdurable n.stateMachine.memtableSizeThreshold
      obtain rfl : sm = sm₀ := Except.ok.inj (hopen.symm.trans hopen')
      refine ⟨RaftNode.new p (m.peers p) sm n.storage clock, hwrites, hpending, ?_⟩
      rw [← hlog]
      exact replayLogs_ok clock hwrites.layout

section Relations

variable {f : RaftNode → Nat} {m : Membership} {b : Ballots} {a : Past} {s : Cluster}
  {p : String} {r : RaftNode}

theorem later_dropTasks (p : String) (rpcs : List Rpc) :
    List.Forall₂ Rpc.Later rpcs
      (rpcs.map fun rpc => if rpc.src = p then { rpc with waiting := false } else rpc) := by
  induction rpcs with
  | nil => exact List.Forall₂.nil
  | cons rpc rpcs ih =>
    refine List.Forall₂.cons ?_ ih
    dsimp only
    split_ifs
    · exact ⟨rfl, rfl, rfl, fun _ => rfl⟩
    · exact Rpc.Later.refl rpc

theorem VoteRel.dropTasks (h : VoteRel m b s) (p : String) : VoteRel m b (s.dropTasks p) := by
  have hl := h.later (later_dropTasks p s.rpcs)
  exact ⟨hl.static, hl.votes, hl.cast, fun c hc => h.member c (List.mem_of_mem_filter hc),
    fun c hc => h.call c (List.mem_of_mem_filter hc), hl.poll, hl.rpc, hl.reply⟩

theorem LogRel.dropTasks (h : LogRel f m a s) (p : String) : LogRel f m a (s.dropTasks p) := by
  have hl := h.later (later_dropTasks p s.rpcs)
  exact ⟨hl.inv, hl.numbered, hl.node, fun hc => h.sync (List.mem_of_mem_filter hc), hl.append,
    hl.confirm⟩

/-- The votes after a restart. -/
theorem VoteRel.restart (h : VoteRel m b s) (hr : Restarted m p (s.nodes p) r) :
    VoteRel m b ((s.dropTasks p).setNode p r) := by
  have hfollower : r.state ≠ .candidate ∧ r.state ≠ .leader := by
    rw [hr.follower]
    simp
  refine (h.dropTasks p).set_quiet hr.static ⟨?_, ?_, fun hs => absurd hs hfollower.1,
    fun hs => absurd hs hfollower.2⟩ ⟨hr.currentTerm.ge, fun hs => absurd hs hfollower.1⟩
  · rw [hr.voteFor, hr.currentTerm]
    exact (h.votes p).vote
  · rw [hr.currentTerm]
    exact (h.votes p).bound

/-- The replicated log after a restart. -/
theorem LogRel.restart (h : LogRel f m a s) (hr : Restarted m p (s.nodes p) r) :
    LogRel f m a ((s.dropTasks p).setNode p r) := by
  have hd := h.dropTasks p
  have hnode : NodeLog f m a p r := by
    refine (h.node p).of_passive (Grows.refl a) ?_ hr.currentTerm.ge rfl hr.log ?_ ?_ ?_
    · rw [hr.currentTerm]
      exact (h.node p).term
    · rw [hr.commitIndex]
      exact Nat.zero_le _
    · rw [hr.follower]
      simp
    · rw [hr.follower]
      simp
  refine ⟨h.inv, h.numbered, fun q => ?_, hd.sync, hd.append, hd.confirm⟩
  show NodeLog f m a q (Function.update s.nodes p r q)
  by_cases hq : q = p
  · subst hq
    rw [Function.update_self]
    exact hnode
  · rw [Function.update_of_ne hq]
    exact h.node q

end Relations

/-! ## Runs with restarts -/

/-- The node that a step starts again. -/
def Event.restarts : Event → Option String
  | .restart p _ => some p
  | _ => none

/-- A step of `LogsStand`, or a restart on files that hold what the node had. -/
structure LogsSurvive (f : RaftNode → Nat) (s : Cluster) (e : Event) : Prop where
  stand : e.restarts = none → LogsStand f s e
  onDisk : ∀ p ∈ e.restarts, (s.nodes p).OnDisk

instance (f : RaftNode → Nat) (s : Cluster) (e : Event) : Decidable (LogsSurvive f s e) :=
  decidable_of_iff ((e.restarts = none → LogsStand f s e) ∧ ∀ p ∈ e.restarts, (s.nodes p).OnDisk)
    ⟨fun ⟨h₁, h₂⟩ => ⟨h₁, h₂⟩, fun ⟨h₁, h₂⟩ => ⟨h₁, h₂⟩⟩

section Steps

variable {f : RaftNode → Nat} {m : Membership} {a : Past} {s s' : Cluster} {e : Event}

theorem LogsSurvive.cases (h : LogsSurvive f s e) (hstep : s.step m e = some s') :
    LogsStand f s e ∨ ∃ p clock r, e = .restart p clock ∧ (s.nodes p).OnDisk ∧ p ∈ m.members ∧
      Cluster.startup m p clock (s.nodes p) = some r ∧ s' = (s.dropTasks p).setNode p r := by
  cases e with
  | restart p clock =>
    simp only [Cluster.step] at hstep
    split_ifs at hstep with hp
    obtain ⟨r, hr, rfl⟩ := Option.map_eq_some_iff.mp hstep
    exact Or.inr ⟨p, clock, r, rfl, h.onDisk p rfl, hp, hr, rfl⟩
  | _ => exact Or.inl (h.stand rfl)

/-- The replicated log goes along with a step. -/
theorem step_survives (hf : IsSlack f) (hv : VoteRel m a.ballot s) (h : LogRel f m a s)
    (hsurvive : LogsSurvive f s e) (hstep : s.step m e = some s') :
    ∃ a', Grows a a' ∧ VoteRel m a'.ballot s' ∧ LogRel f m a' s' := by
  rcases hsurvive.cases hstep with hstand | ⟨p, clock, r, rfl, hdisk, -, hr, rfl⟩
  · obtain ⟨q, a', hsteps, hballot, hlogs⟩ := step_logRel hf hv h hstand hstep
    have hvotes := step_voteRel hv hstand.votes.1 hstand.votes.2 hstep
    rw [← hballot] at hvotes
    exact ⟨a', (steps_inv h.inv hsteps).2.1, hvotes, hlogs⟩
  · have hrestarted := startup_restarted (hv.static p).plain hdisk hr
    exact ⟨a, Grows.refl a, hv.restart hrestarted, h.restart hrestarted⟩

end Steps

/-! ## What has been committed so far -/

/-- A cluster, and the longest log that one of its nodes has committed so
far. -/
structure Recorded where
  cluster : Cluster
  committed : List LogEntry

/-- The longer one of two lists. -/
def longer (l l' : List LogEntry) : List LogEntry := if l.length < l'.length then l' else l

namespace Recorded

/-- The committed part of the log of a node. -/
def commitOf (s : Cluster) (p : String) : List LogEntry :=
  (s.nodes p).log.take (s.nodes p).commitIndex

/-- The step of the cluster, on record. -/
def step (m : Membership) (s : Recorded) (e : Event) : Option Recorded :=
  (s.cluster.step m e).map fun t =>
    { cluster := t
      committed := m.members.foldl (fun l p => longer l (commitOf t p)) s.committed }

def start (m : Membership) : Recorded := { cluster := Cluster.start m, committed := [] }

theorem step_eq_some {m : Membership} {s s' : Recorded} {e : Event} (h : s.step m e = some s') :
    s.cluster.step m e = some s'.cluster ∧
      s'.committed =
        m.members.foldl (fun l p => longer l (commitOf s'.cluster p)) s.committed := by
  obtain ⟨t, ht, rfl⟩ := Option.map_eq_some_iff.mp h
  exact ⟨ht, rfl⟩

theorem step_of_step {m : Membership} {s : Recorded} {t : Cluster} {e : Event}
    (h : s.cluster.step m e = some t) :
    s.step m e = some
      { cluster := t
        committed := m.members.foldl (fun l p => longer l (commitOf t p)) s.committed } := by
  unfold step
  rw [h]
  rfl

theorem run_cluster {m : Membership} {es : List Event} : ∀ {s t : Recorded},
    run (step m) s es = some t → run (Cluster.step m) s.cluster es = some t.cluster := by
  induction es with
  | nil =>
    intro s t h
    obtain rfl : s = t := Option.some.inj h
    rfl
  | cons e es ih =>
    intro s t h
    obtain ⟨u, he, hes⟩ := run_cons_eq_some.mp h
    exact run_cons_eq_some.mpr ⟨u.cluster, (step_eq_some he).1, ih hes⟩

/-- A condition on the cluster alone. -/
theorem along_cluster {m : Membership} {P : Cluster → Event → Prop} {es : List Event} :
    ∀ {s : Recorded}, Along (step m) (fun s e => P s.cluster e) s es →
      Along (Cluster.step m) P s.cluster es := by
  induction es with
  | nil => exact fun _ => trivial
  | cons e es ih =>
    rintro s ⟨hP, hrest⟩
    exact ⟨hP, fun t ht => ih (hrest _ (step_of_step ht))⟩

/-- The longer one of two comparable lists holds both. -/
theorem longer_prefix {l l' : List LogEntry} (h : l <+: l' ∨ l' <+: l) :
    l <+: longer l l' ∧ l' <+: longer l l' := by
  unfold longer
  split_ifs with hlt
  · refine ⟨h.resolve_right fun hp => ?_, List.prefix_rfl⟩
    have := hp.length_le
    omega
  · refine ⟨List.prefix_rfl, h.elim (fun hp => ?_) id⟩
    rw [hp.eq_of_length (by have := hp.length_le; omega)]

/-- The record of comparable lists holds them all. -/
theorem foldl_longer {P : List LogEntry → Prop}
    (hcmp : ∀ {l l'}, P l → P l' → l <+: l' ∨ l' <+: l) (c : String → List LogEntry)
    (hc : ∀ p, P (c p)) (ps : List String) :
    ∀ {l : List LogEntry}, P l →
      P (ps.foldl (fun l p => longer l (c p)) l) ∧
        l <+: ps.foldl (fun l p => longer l (c p)) l ∧
        ∀ p ∈ ps, c p <+: ps.foldl (fun l p => longer l (c p)) l := by
  induction ps with
  | nil => exact fun hl => ⟨hl, List.prefix_rfl, nofun⟩
  | cons p ps ih =>
    intro l hl
    obtain ⟨hleft, hright⟩ := longer_prefix (hcmp hl (hc p))
    have hlonger : P (longer l (c p)) := by
      unfold longer
      split_ifs
      · exact hc p
      · exact hl
    obtain ⟨hP, hpre, hall⟩ := ih hlonger
    refine ⟨hP, hleft.trans hpre, fun q hq => ?_⟩
    rcases List.mem_cons.mp hq with rfl | hq
    · exact hright.trans hpre
    · exact hall q hq

end Recorded

/-- The logs survive, and a node starts again only when all of its log is
committed, and its log reaches as far as it has applied. -/
structure StoresSurvive (f : RaftNode → Nat) (s : Recorded) (e : Event) : Prop where
  logs : LogsSurvive f s.cluster e
  committed : ∀ p ∈ e.restarts, (s.cluster.nodes p).log <+: s.committed
  applied : ∀ p ∈ e.restarts, (s.cluster.nodes p).lastApplied ≤ (s.cluster.nodes p).log.length

instance (f : RaftNode → Nat) (s : Recorded) (e : Event) : Decidable (StoresSurvive f s e) :=
  decidable_of_iff (LogsSurvive f s.cluster e ∧
      (∀ p ∈ e.restarts, (s.cluster.nodes p).log <+: s.committed) ∧
      ∀ p ∈ e.restarts, (s.cluster.nodes p).lastApplied ≤ (s.cluster.nodes p).log.length)
    ⟨fun ⟨h₁, h₂, h₃⟩ => ⟨h₁, h₂, h₃⟩, fun ⟨h₁, h₂, h₃⟩ => ⟨h₁, h₂, h₃⟩⟩

/-- The record holds what the nodes have committed and what they have
applied. -/
structure RecordRel (f : RaftNode → Nat) (m : Membership) (a : Past)
    (fed : String → List LogEntry) (s : Recorded) : Prop where
  cluster : ClusterRel f m a fed s.cluster
  committed : ∃ B, Committed (majority m.members) LogEntry.term a B s.committed
  fed : ∀ p ∈ m.members, fed p <+: s.committed
  commit : ∀ p ∈ m.members, Recorded.commitOf s.cluster p <+: s.committed

theorem start_recordRel (f : RaftNode → Nat) (m : Membership) :
    RecordRel f m State.init (fun _ => []) (Recorded.start m) :=
  ⟨start_clusterRel f m, ⟨0, Committed.nil⟩, fun _ _ => List.nil_prefix, fun _ _ => List.nil_prefix⟩

section RecordSteps

variable {f : RaftNode → Nat} {m : Membership} {a : Past} {fed : String → List LogEntry}

/-- The store of a node that has started again on a committed log. -/
theorem NodeStore.restart {p : String} {l : List LogEntry} {n r : RaftNode}
    (h : NodeStore m a l n) (hr : Restarted m p n r) (hl : l <+: n.log) {B : Nat}
    (hcommitted : Committed (majority m.members) LogEntry.term a B n.log) :
    NodeStore m a n.log r := by
  obtain ⟨n₀, hopen, hpending, happ⟩ := hr.store h.layout h.durable
  have hnone : n₀.stateMachine.staged = Staged.none := staged_of_empty hpending
  refine ⟨hr.lastApplied.symm, ⟨B, hcommitted⟩, happ.writes.layout,
    happ.writes.durable (hopen.durable h.durable), fun key => ?_, ?_⟩
  · -- the whole log is written once more over what was there
    have hsame : ∀ key, lastWrite n₀.stateMachine.trace key =
        lastWrite (logWrites Staged.none (l.map LogEntry.command)) key := by
      intro key
      exact (hopen.same key).trans (h.contents key)
    rw [happ.writes.contents key, hnone, lastWrite_append_congr hsame]
    obtain ⟨rest, hrest⟩ := hl
    unfold logEffect
    rw [← hrest, List.map_append, logWrites_append]
    exact lastWrite_replay _ _ key
  · rw [happ.staged, hnone]

theorem step_recordRel (hf : IsSlack f) {s s' : Recorded} {e : Event}
    (h : RecordRel f m a fed s) (hsurvive : StoresSurvive f s e) (hstep : s.step m e = some s') :
    ∃ a' fed', Grows a a' ∧ RecordRel f m a' fed' s' ∧ s.committed <+: s'.committed := by
  obtain ⟨hcluster, hrecord⟩ := Recorded.step_eq_some hstep
  obtain ⟨B, hB⟩ := h.committed
  -- the step of the cluster, and where what is applied comes from
  have hrel : ∃ a' fed', Grows a a' ∧ ClusterRel f m a' fed' s'.cluster ∧
      ∀ p ∈ m.members, fed' p <+: s.committed ∨ fed' p = Recorded.commitOf s'.cluster p := by
    rcases hsurvive.logs.cases hcluster with hstand | ⟨p, clock, r, rfl, hdisk, hp, hr, hs'⟩
    · obtain ⟨a', fed', hg, -, hfed, hrel, -⟩ := step_clusterRel hf h.cluster hstand hcluster
      refine ⟨a', fed', hg, hrel, fun p hp => (hfed p).imp (fun heq => ?_) id⟩
      rw [heq]
      exact h.fed p hp
    · have hrestarted := startup_restarted (h.cluster.votes.static p).plain hdisk hr
      have hall := hsurvive.committed p rfl
      have hfed : fed p <+: (s.cluster.nodes p).log := by
        refine List.prefix_of_prefix_length_le (h.fed p hp) hall ?_
        rw [(h.cluster.stores p).length]
        exact hsurvive.applied p rfl
      refine ⟨a, Function.update fed p (s.cluster.nodes p).log, Grows.refl a, ?_, fun q hq => ?_⟩
      · rw [hs']
        refine ⟨h.cluster.votes.restart hrestarted, h.cluster.logs.restart hrestarted,
          fun q => ?_⟩
        show NodeStore m a (Function.update fed p (s.cluster.nodes p).log q)
          (Function.update s.cluster.nodes p r q)
        by_cases hq : q = p
        · subst hq
          rw [Function.update_self, Function.update_self]
          exact (h.cluster.stores q).restart hrestarted hfed (hB.of_isPrefix hall)
        · rw [Function.update_of_ne hq, Function.update_of_ne hq]
          exact h.cluster.stores q
      · by_cases hqp : q = p
        · subst hqp
          rw [Function.update_self]
          exact Or.inl hall
        · rw [Function.update_of_ne hqp]
          exact Or.inl (h.fed q hq)
  obtain ⟨a', fed', hg, hrel, hfed⟩ := hrel
  obtain ⟨hP, hpre, hall⟩ := @Recorded.foldl_longer
    (fun l => ∃ B, Committed (majority m.members) LogEntry.term a' B l)
    (fun ⟨_, hl⟩ ⟨_, hl'⟩ => committed_comparable hrel.logs.inv hl hl')
    (Recorded.commitOf s'.cluster) (fun p => ⟨_, (hrel.logs.node p).committed⟩) m.members
    s.committed ⟨B, hB.grows hg le_rfl⟩
  rw [← hrecord] at hP hpre hall
  refine ⟨a', fed', hg, ⟨hrel, hP, fun p hp => ?_, hall⟩, hpre⟩
  rcases hfed p hp with hold | hnew
  · exact hold.trans hpre
  · rw [hnew]
    exact hall p hp

theorem run_recordRel (hf : IsSlack f) : ∀ {es : List Event} {a : Past}
    {fed : String → List LogEntry} {s s' : Recorded}, RecordRel f m a fed s →
      Along (Recorded.step m) (StoresSurvive f) s es → run (Recorded.step m) s es = some s' →
      ∃ a' fed', Grows a a' ∧ RecordRel f m a' fed' s' ∧ s.committed <+: s'.committed := by
  intro es
  induction es with
  | nil =>
    intro a fed s s' h _ hrun
    obtain rfl : s = s' := Option.some.inj hrun
    exact ⟨a, fed, Grows.refl a, h, List.prefix_rfl⟩
  | cons e es ih =>
    rintro a fed s s' h ⟨hsurvive, hrest⟩ hrun
    obtain ⟨t, he, hes⟩ := run_cons_eq_some.mp hrun
    obtain ⟨a₁, fed₁, hg₁, h₁, hpre₁⟩ := step_recordRel hf h hsurvive he
    obtain ⟨a₂, fed₂, hg₂, h₂, hpre₂⟩ := ih h₁ (hrest t he) hes
    exact ⟨a₂, fed₂, hg₁.trans hg₂, h₂, hpre₁.trans hpre₂⟩

/-- The store of a node is the effect of what the cluster has committed, up to
`last_applied`. -/
theorem RecordRel.contents {s : Recorded} (h : RecordRel f m a fed s) {p : String}
    (hp : p ∈ m.members) : (s.cluster.nodes p).lastApplied ≤ s.committed.length ∧
      ∀ key, (s.cluster.nodes p).stateMachine.contents key =
        logEffect (s.committed.take (s.cluster.nodes p).lastApplied) key := by
  have hstore := h.cluster.stores p
  have hle := (h.fed p hp).length_le
  rw [hstore.length] at hle
  refine ⟨hle, fun key => ?_⟩
  rw [hstore.contents key, ← hstore.length, ← List.prefix_iff_eq_take.mp (h.fed p hp)]

end RecordSteps

/-! ## What a restart exposes -/

/-- After the start the state machine is the effect of a committed prefix of
the log, and from then on that of the committed log up to `last_applied`. -/
theorem restart_exposes_committed {m : Membership} {es fs : List Event} {p : String}
    {clock : Clock} {s t u : Recorded}
    (halong : Along (Recorded.step m) (StoresSurvive inherited) (Recorded.start m)
      (es ++ .restart p clock :: fs))
    (hs : run (Recorded.step m) (Recorded.start m) es = some s)
    (ht : s.step m (.restart p clock) = some t) (hu : run (Recorded.step m) t fs = some u) :
    (∃ l, l <+: (t.cluster.nodes p).log ∧ l <+: t.committed ∧
        (t.cluster.nodes p).lastApplied ≤ l.length ∧
        ∀ key, (t.cluster.nodes p).stateMachine.contents key = logEffect l key) ∧
      (u.cluster.nodes p).lastApplied ≤ u.committed.length ∧
      ∀ key, (u.cluster.nodes p).stateMachine.contents key =
        logEffect (u.committed.take (u.cluster.nodes p).lastApplied) key := by
  obtain ⟨hfirst, hsurvive, hrest⟩ := halong.append hs
  obtain ⟨a, fed, -, h, -⟩ :=
    run_recordRel inherited_isSlack (start_recordRel inherited m) hfirst hs
  obtain ⟨a₁, fed₁, -, h₁, hpre⟩ := step_recordRel inherited_isSlack h hsurvive ht
  obtain ⟨a₂, fed₂, -, h₂, -⟩ := run_recordRel inherited_isSlack h₁ (hrest t ht) hu
  rcases hsurvive.logs.cases (Recorded.step_eq_some ht).1 with
    hstand | ⟨q, clock', r, he, hdisk, hp, hr, ht'⟩
  · exact absurd trivial hstand.votes.1
  · obtain ⟨rfl, rfl⟩ : p = q ∧ clock = clock' := by
      injection he with hp hclock
      exact ⟨hp, hclock⟩
    have hrestarted := startup_restarted (h.cluster.votes.static p).plain hdisk hr
    have hnode : t.cluster.nodes p = r := by rw [ht', Cluster.setNode_nodes_self]
    obtain ⟨-, hcontents⟩ := h₁.contents hp
    have hlog : r.log <+: t.committed := by
      rw [hrestarted.log]
      exact (hsurvive.committed p rfl).trans hpre
    have hlast : r.lastApplied = r.log.length := by
      rw [hrestarted.lastApplied, hrestarted.log]
    refine ⟨⟨r.log, by rw [hnode], hlog, by rw [hnode, hlast],
      fun key => ?_⟩, h₂.contents hp⟩
    rw [hcontents key, hnode, hlast, ← List.prefix_iff_eq_take.mp hlog]

theorem restart_exposes_committed_one_entry :
    ∃ s t, run (Recorded.step threeNodes) (Recorded.start threeNodes) (oneEntry ++ oneHeartbeat) =
        some s ∧
      s.step threeNodes (.restart "b" someClock) = some t ∧
      (t.cluster.nodes "b").lastApplied = 1 ∧
      ∃ l, l <+: (t.cluster.nodes "b").log ∧ l <+: t.committed ∧
        (t.cluster.nodes "b").lastApplied ≤ l.length ∧
        ∀ key, (t.cluster.nodes "b").stateMachine.contents key = logEffect l key := by
  obtain ⟨t, ht, hlast⟩ : ∃ t, run (Recorded.step threeNodes) (Recorded.start threeNodes)
      (oneEntry ++ oneHeartbeat ++ [.restart "b" someClock]) = some t ∧
      (t.cluster.nodes "b").lastApplied = 1 := exists_run_of_any (by decide +kernel)
  obtain ⟨s, hs, ht⟩ := run_append_eq_some.mp ht
  obtain ⟨t', hstep, hnil⟩ := run_cons_eq_some.mp ht
  obtain rfl : t' = t := Option.some.inj hnil
  have halong : Along (Recorded.step threeNodes) (StoresSurvive inherited)
      (Recorded.start threeNodes) (oneEntry ++ oneHeartbeat ++ .restart "b" someClock :: []) := by
    decide +kernel
  exact ⟨s, t', hs, hstep, hlast, (restart_exposes_committed halong hs hstep rfl).1⟩

/-- `a` is elected and proposes an entry that no other node gets. -/
def loneProposal : List Event := oneElection ++ [.propose "a" (.set "x" "1")]

/-- `c` is elected by `b`, commits an entry of its own and sends it to `a`. -/
def overwritten : List Event :=
  [.becomeCandidate "c" someClock, .becomeCandidate "c" someClock, .resume 0 someClock,
    .deliver 3 someClock, .receive 1 someClock, .resume 1 someClock,
    .propose "c" (.set "y" "2"), .leaderCheck "c", .resume 1 someClock, .resume 1 someClock,
    .resume 1 someClock, .deliver 4 someClock, .deliver 5 someClock, .receive 3 someClock,
    .leaderCheck "c", .resume 2 someClock, .resume 2 someClock, .deliver 6 someClock]

theorem uncommitted_entry_after_restart :
    ∃ t u, run (Recorded.step threeNodes) (Recorded.start threeNodes)
        (loneProposal ++ [.restart "a" someClock]) = some t ∧
      run (Recorded.step threeNodes) t overwritten = some u ∧
      t.committed = [] ∧ (t.cluster.nodes "a").lastApplied = 1 ∧
      (t.cluster.nodes "a").stateMachine.contents "x" = some "1" ∧
      (u.cluster.nodes "a").log = u.committed ∧ (u.cluster.nodes "a").commitIndex = 1 ∧
      (u.cluster.nodes "a").stateMachine.contents "x" = some "1" ∧
      logEffect u.committed "x" = none := by
  obtain ⟨u, hu, hlog, hcommit, hx, heffect⟩ : ∃ u, run (Recorded.step threeNodes)
      (Recorded.start threeNodes) (loneProposal ++ [.restart "a" someClock] ++ overwritten) =
        some u ∧
      (u.cluster.nodes "a").log = u.committed ∧ (u.cluster.nodes "a").commitIndex = 1 ∧
      (u.cluster.nodes "a").stateMachine.contents "x" = some "1" ∧
      logEffect u.committed "x" = none := exists_run_of_any (by decide +kernel)
  obtain ⟨t, ht, hnone, hlast, hx'⟩ : ∃ t, run (Recorded.step threeNodes)
      (Recorded.start threeNodes) (loneProposal ++ [.restart "a" someClock]) = some t ∧
      t.committed = [] ∧ (t.cluster.nodes "a").lastApplied = 1 ∧
      (t.cluster.nodes "a").stateMachine.contents "x" = some "1" :=
    exists_run_of_any (by decide +kernel)
  obtain ⟨t', ht', hu⟩ := run_append_eq_some.mp hu
  obtain rfl : t = t' := Option.some.inj (ht.symm.trans ht')
  exact ⟨t, u, ht, hu, hnone, hlast, hx', hlog, hcommit, hx, heffect⟩

end OxideKv
