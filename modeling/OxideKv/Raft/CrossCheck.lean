import OxideKv.Raft.ElectionSafety
import OxideKv.Raft.InvariantRuns
import OxideKv.Raft.ReferenceModel
import OxideKv.StateMachine.Reads

/-!
# The oracle beside a run

The harness of the simulation drives a cluster and pulls `ReferenceModel`
forward from the log of whatever node leads at the time (`drain_to`,
`replay_from_node`).  At the end of a scenario it replays the log of the
leader and compares: the invariants, the store of the leader against the oracle
and the logs of the other nodes against the log of the leader.

`OracleOk` is the invariant: the oracle is at the effect of committed entries,
whoever it read them from.  So draining on the way comes to the same as
replaying at the end (`drains_eq_replay`), and the checks at the end pass
(`finalChecks_of_run`) where the leader that is picked is not behind in term
and no table of its store hides a value.

`kill_node` makes the node a follower; `restart_node` keeps its memory.  That a
killed node answers nothing is one of the things the network can do.
-/

namespace OxideKv

open Quorum ReplicatedLog RaftNode Run Checks SimCluster
open Std (TreeMap)

/-- `get_log_entry`. -/
def RaftNode.getLogEntry (n : RaftNode) (index : Nat) : Option LogEntry :=
  if index = 0 then none else n.log[index - 1]?

namespace ReferenceModel

/-! ## Reading a log -/

/-- `reset`. -/
def reset (_ : ReferenceModel) : ReferenceModel := new

/-- `applied_index`. -/
def appliedIndex (m : ReferenceModel) : Nat := m.nextIndex - 1

/-- The loop of `drain_to` and `replay_from_node` on the log of `n`.  Every
turn raises `next_index`, so `fuel` above the distance to `commitIndex` is
never used up. -/
def drainFrom (n : RaftNode) (commitIndex : Nat) :
    Nat → Nat → ReferenceModel → Nat × ReferenceModel
  | 0, applied, m => (applied, m)
  | fuel + 1, applied, m =>
      if m.nextIndex ≤ commitIndex then
        match n.getLogEntry m.nextIndex with
        | none => (applied, m)
        | some e =>
            match m.apply m.nextIndex e.command with
            | (true, m') => drainFrom n commitIndex fuel (applied + 1) m'
            | (false, m') => (applied, m')
      else (applied, m)

/-- `drain_to`. -/
def drainTo (c : SimCluster) (commitIndex : Nat) (m : ReferenceModel) : Nat × ReferenceModel :=
  match c.nodes.find? fun n => n.raft.state = .leader with
  | none => (0, m)
  | some l => drainFrom l.raft commitIndex (commitIndex + 1 - m.nextIndex) 0 m

/-- `replay_from_node`. -/
def replayFromNode (n : RaftNode) (commitIndex : Nat) (m : ReferenceModel) :
    Nat × ReferenceModel :=
  drainFrom n commitIndex commitIndex 0 m.reset

end ReferenceModel

/-! ## The checks at the end of a scenario -/

inductive FuzzFailure where
  | invariant (v : InvariantViolation)
  /-- The leader reads `actual` where the oracle has `expected`. -/
  | mismatch (leader key : String) (actual : Option String) (expected : String)
  /-- A follower has applied an entry that is another one in the log of the
  leader. -/
  | diverges (follower : String) (index term leaderIndex leaderTerm : Nat)
deriving Repr, DecidableEq

/-- The leader that is not killed. -/
def SimCluster.aliveLeader (c : SimCluster) (killed : List String) : Option SimNode :=
  c.nodes.find? fun n => n.id ∉ killed ∧ n.raft.state = .leader

/-- Every row of the oracle is what the leader reads. -/
def readsAgree (l : SimNode) (m : ReferenceModel) : Verdict FuzzFailure :=
  forEach
    (fun e =>
      if l.raft.stateMachine.get e.1 = some e.2 then .pass
      else .fail (.mismatch l.id e.1 (l.raft.stateMachine.get e.1) e.2))
    m.state.toList

/-- What a node has applied, entry by entry against the log of the leader. -/
def appliedAgrees (leaderLog : List LogEntry) (n : SimNode) : Verdict FuzzFailure :=
  forEach
    (fun entry =>
      if leaderLog.length < entry.index then .pass
      else if entry.index = 0 then .panic
      else
        match leaderLog[entry.index - 1]? with
        | none => .panic
        | some le =>
            if le.index ≠ entry.index ∨ le.term ≠ entry.term then
              .fail (.diverges n.id entry.index entry.term le.index le.term)
            else .pass)
    (n.raft.log.take n.raft.lastApplied)

/-- The same for every node but the leader and the killed ones. -/
def followersAgree (c : SimCluster) (killed : List String) (l : SimNode) : Verdict FuzzFailure :=
  forEach
    (fun n => if n.id ∈ killed ∨ n.id = l.id then .pass else appliedAgrees l.raft.log n)
    c.nodes

/-- A check of `assert_invariants` among the others. -/
def invariantsHold (c : SimCluster) : Verdict FuzzFailure :=
  match assertInvariants c with
  | .pass => .pass
  | .fail v => .fail (.invariant v)
  | .panic => .panic

/-- The end of `run_actions`. -/
def finalChecks (c : SimCluster) (killed : List String) (m : ReferenceModel) :
    Verdict FuzzFailure :=
  match c.aliveLeader killed with
  | none => invariantsHold c
  | some l =>
      (invariantsHold c).andThen <|
      (readsAgree l (m.replayFromNode l.raft l.raft.commitIndex).2).andThen <|
      followersAgree c killed l

/-- A store without tables hides nothing. -/
theorem StateMachine.not_hidesOlderValue {sm : StateMachine} (h : sm.sstables.length = 0)
    (key : String) : ¬sm.HidesOlderValue key := by
  intro hhides
  rw [StateMachine.HidesOlderValue, List.length_eq_zero_iff.mp h, List.reverse_nil] at hhides
  obtain ⟨-, newer, sst, older, hempty, -⟩ := hhides
  exact absurd hempty (by simp)

/-! ## The harness -/

structure Harness where
  cluster : Cluster
  model : ReferenceModel

inductive HarnessEvent where
  | base (e : Event)
  /-- `kill_node`. -/
  | kill (p : String)
  /-- `drain_to` up to the commit index of the leader. -/
  | drain
  /-- `replay_from_node` up to the commit index of the node. -/
  | replay (p : String)
  | reset

namespace Harness

def demote (n : RaftNode) : RaftNode := { n with state := .follower }

/-- The oracle after a drain. -/
def drained (c : SimCluster) (m : ReferenceModel) : ReferenceModel :=
  match c.nodes.find? fun n => n.raft.state = .leader with
  | none => m
  | some l => (m.drainTo c l.raft.commitIndex).2

def step (m : Membership) (s : Harness) : HarnessEvent → Option Harness
  | .base e => (s.cluster.step m e).map fun c => { s with cluster := c }
  | .kill p => some { s with cluster := s.cluster.setNode p (demote (s.cluster.nodes p)) }
  | .drain => some { s with model := drained (simCluster m s.cluster) s.model }
  | .replay p =>
      some { s with
        model := (s.model.replayFromNode (s.cluster.nodes p) (s.cluster.nodes p).commitIndex).2 }
  | .reset => some { s with model := s.model.reset }

def start (m : Membership) : Harness := { cluster := Cluster.start m, model := .new }

def LogsStand (s : Harness) : HarnessEvent → Prop
  | .base e => OxideKv.LogsStand inherited s.cluster e
  | _ => True

instance (s : Harness) (e : HarnessEvent) : Decidable (s.LogsStand e) := by
  unfold LogsStand
  split <;> infer_instance

end Harness

/-! ## The oracle is at the effect of a log -/

namespace ReferenceModel

/-- The oracle has applied the entries `l`. -/
structure AtEffect (rm : ReferenceModel) (l : List LogEntry) : Prop where
  nextIndex : rm.nextIndex = l.length + 1
  holds : rm.Holds (logWrites Staged.none (l.map LogEntry.command))
    (logStaged Staged.none (l.map LogEntry.command))

theorem new_atEffect : AtEffect new [] := ⟨rfl, new_holds⟩

theorem AtEffect.get {rm : ReferenceModel} {l : List LogEntry} (h : AtEffect rm l) (key : String) :
    rm.state[key]? = logEffect l key := h.holds.state key

/-- One entry more. -/
theorem AtEffect.apply {rm : ReferenceModel} {l : List LogEntry} (h : AtEffect rm l)
    (e : LogEntry) :
    ∃ rm', rm.apply rm.nextIndex e.command = (true, rm') ∧ AtEffect rm' (l ++ [e]) := by
  have hbumped : ({ rm with nextIndex := rm.nextIndex + 1 } : ReferenceModel).Holds
      (logWrites Staged.none (l.map LogEntry.command))
      (logStaged Staged.none (l.map LogEntry.command)) := ⟨h.holds.state, h.holds.pending⟩
  refine ⟨_, by rw [ReferenceModel.apply, if_neg (lt_irrefl _), if_neg (lt_irrefl _)], ?_, ?_⟩
  · rw [applyCommand_nextIndex, h.nextIndex, List.length_append, List.length_singleton]
  · have hcommand := hbumped.applyCommand e.command
    rw [List.map_append, logWrites_append, logStaged_append]
    simpa [logWrites, logStaged] using hcommand

/-- The loop takes the entries up to the commit index that the oracle does not
have yet. -/
theorem drainFrom_atEffect {n : RaftNode} {commitIndex : Nat}
    (hle : commitIndex ≤ n.log.length) (fuel : Nat) :
    ∀ (applied : Nat) {rm : ReferenceModel} {l : List LogEntry}, AtEffect rm l →
      fuel = commitIndex + 1 - rm.nextIndex →
      AtEffect (drainFrom n commitIndex fuel applied rm).2
        (l ++ (n.log.take commitIndex).drop l.length) := by
  induction fuel with
  | zero =>
    intro applied rm l h hfuel
    have hnext := h.nextIndex
    rw [List.drop_of_length_le (by rw [List.length_take]; omega), List.append_nil]
    exact h
  | succ fuel ih =>
    intro applied rm l h hfuel
    have hnext := h.nextIndex
    have hlt : l.length < (n.log.take commitIndex).length := by
      rw [List.length_take]
      omega
    have hentry : n.getLogEntry rm.nextIndex = some (n.log.take commitIndex)[l.length] := by
      rw [RaftNode.getLogEntry, if_neg (by omega), hnext, Nat.add_sub_cancel,
        ← List.getElem?_eq_getElem hlt, List.getElem?_take_of_lt (by omega)]
    obtain ⟨rm', happly, h'⟩ := h.apply (n.log.take commitIndex)[l.length]
    rw [drainFrom, if_pos (by omega), hentry]
    dsimp only
    rw [happly]
    have hrest := ih (applied + 1) h' (by
      rw [h'.nextIndex, List.length_append, List.length_singleton]
      omega)
    rw [List.append_assoc, List.length_append, List.length_singleton, List.singleton_append,
      ← List.drop_eq_getElem_cons hlt] at hrest
    exact hrest

/-- A replay leaves the oracle at the effect of the log up to there. -/
theorem replayFromNode_atEffect {n : RaftNode} {commitIndex : Nat}
    (hle : commitIndex ≤ n.log.length) (rm : ReferenceModel) :
    AtEffect (rm.replayFromNode n commitIndex).2 (n.log.take commitIndex) :=
  drainFrom_atEffect hle commitIndex 0 new_atEffect rfl

end ReferenceModel

open ReferenceModel

/-- The oracle has applied committed entries. -/
def OracleOk (m : Membership) (a : Past) (rm : ReferenceModel) : Prop :=
  ∃ l B, Committed (majority m.members) LogEntry.term a B l ∧ rm.AtEffect l

section Oracle

variable {f : RaftNode → Nat} {m : Membership} {a a' : Past} {s : Cluster} {rm : ReferenceModel}

theorem OracleOk.grows (h : OracleOk m a rm) (hg : Grows a a') : OracleOk m a' rm := by
  obtain ⟨l, B, hB, heffect⟩ := h
  exact ⟨l, B, hB.grows hg le_rfl, heffect⟩

theorem new_oracleOk : OracleOk m a .new := ⟨[], 0, Committed.nil, new_atEffect⟩

/-- The oracle after a drain from any node, up to its commit index. -/
theorem OracleOk.drainFrom (h : OracleOk m a rm) (hl : LogRel f m a s) (p : String)
    (applied : Nat) :
    OracleOk m a (ReferenceModel.drainFrom (s.nodes p) (s.nodes p).commitIndex
      ((s.nodes p).commitIndex + 1 - rm.nextIndex) applied rm).2 := by
  obtain ⟨l, B, hB, heffect⟩ := h
  have hnode := hl.node p
  have hdrain := drainFrom_atEffect hnode.commit _ applied heffect rfl
  have hlen : ((s.nodes p).log.take (s.nodes p).commitIndex).length =
      (s.nodes p).commitIndex := by
    rw [List.length_take]
    exact Nat.min_eq_left hnode.commit
  rcases committed_comparable hl.inv hB hnode.committed with hpre | hpre
  · -- the log of the node goes on where the oracle is
    have heq : l ++ ((s.nodes p).log.take (s.nodes p).commitIndex).drop l.length =
        (s.nodes p).log.take (s.nodes p).commitIndex := by
      obtain ⟨rest, hrest⟩ := hpre
      rw [← hrest, List.drop_left]
    rw [heq] at hdrain
    exact ⟨_, _, hnode.committed, hdrain⟩
  · rw [List.drop_of_length_le hpre.length_le, List.append_nil] at hdrain
    exact ⟨l, B, hB, hdrain⟩

theorem replayFromNode_oracleOk (hl : LogRel f m a s) (p : String) (rm : ReferenceModel) :
    OracleOk m a (rm.replayFromNode (s.nodes p) (s.nodes p).commitIndex).2 :=
  ⟨_, _, (hl.node p).committed, replayFromNode_atEffect (hl.node p).commit rm⟩

/-- What the oracle has applied is in the log of every node that has committed
as much. -/
theorem OracleOk.atEffect_take (h : OracleOk m a rm) (hl : LogRel f m a s) {p : String}
    (hle : rm.appliedIndex ≤ (s.nodes p).commitIndex) :
    rm.AtEffect ((s.nodes p).log.take rm.appliedIndex) := by
  obtain ⟨l, B, hB, heffect⟩ := h
  have hlen : rm.appliedIndex = l.length := by
    rw [appliedIndex, heffect.nextIndex, Nat.add_sub_cancel]
  have hcommit := (hl.node p).commit
  have heq : l = (s.nodes p).log.take rm.appliedIndex := by
    rcases committed_comparable hl.inv hB (hl.node p).committed with hpre | hpre
    · have htake := List.prefix_iff_eq_take.mp hpre
      rw [List.take_take, Nat.min_eq_left (by omega)] at htake
      rw [hlen]
      exact htake
    · have hle' := hpre.length_le
      rw [List.length_take] at hle'
      have heq := hpre.eq_of_length (by rw [List.length_take]; omega)
      rw [← heq]
      congr 1
      omega
  rw [← heq]
  exact heffect

end Oracle

/-! ## Runs of the harness -/

section Demote

variable {f : RaftNode → Nat} {m : Membership} {a : Past} {fed : String → List LogEntry}
  {s : Cluster}

/-- A follower has no duties. -/
theorem ClusterRel.demote (h : ClusterRel f m a fed s) (p : String) :
    ClusterRel f m a fed (s.setNode p (Harness.demote (s.nodes p))) := by
  have hnode := h.logs.node p
  have hvotes := h.votes.votes p
  have hdemoted : NodeLog f m a p (Harness.demote (s.nodes p)) :=
    ⟨hnode.term, hnode.log, fun hs => (by cases hs), fun hs => (by cases hs),
      fun hs => (by cases hs), fun hs => (by cases hs), hnode.commit, hnode.committed⟩
  have hquiet : NodeVotes m a.ballot p (Harness.demote (s.nodes p)) :=
    ⟨hvotes.vote, hvotes.bound, fun hs => (by cases hs), fun hs => (by cases hs)⟩
  refine ⟨?_, ?_, fun q => ?_⟩
  · refine h.votes.set_quiet ((h.votes.static p).of_same rfl rfl rfl rfl) hquiet ⟨le_rfl, ?_⟩
    intro hs
    cases hs
  · exact h.logs.setNode (matched_stay h.logs.numbered hvotes (.of_eq rfl rfl) hdemoted)
  · by_cases hq : q = p
    · subst hq
      rw [Cluster.setNode_nodes_self]
      have hstore := h.stores q
      exact ⟨hstore.length, hstore.committed, hstore.layout, hstore.durable, hstore.contents,
        hstore.staged⟩
    · rw [show (s.setNode p (Harness.demote (s.nodes p))).nodes q = s.nodes q from
        Function.update_of_ne hq _ _]
      exact h.stores q

/-- What holds of a node and of the node as a follower holds of all nodes. -/
theorem setNode_demote_nodes (p q : String) :
    (s.setNode p (Harness.demote (s.nodes p))).nodes q = s.nodes q ∨
      (s.setNode p (Harness.demote (s.nodes p))).nodes q = Harness.demote (s.nodes q) := by
  by_cases hq : q = p
  · subst hq
    exact Or.inr (Cluster.setNode_nodes_self _ _ _)
  · exact Or.inl (Function.update_of_ne hq _ _)

end Demote

/-- The commands proposed in a step of the harness. -/
def HarnessEvent.commands : HarnessEvent → List Command
  | .base e => e.commands
  | _ => []

namespace Harness

variable {m : Membership} {s s' : Harness} {e : HarnessEvent} {es : List HarnessEvent}

/-- The replicated log behind the cluster, and the oracle at committed entries
of it. -/
structure Tracks (m : Membership) (s : Harness) : Prop where
  rel : ∃ a fed, ClusterRel inherited m a fed s.cluster ∧
    (∀ p, Holds m a (fed p) (s.cluster.nodes p)) ∧ OracleOk m a s.model
  upToCommit : s.cluster.UpToCommit

theorem start_tracks (m : Membership) : Tracks m (start m) :=
  ⟨⟨_, _, start_clusterRel inherited m, start_holds m, new_oracleOk⟩, fun _ => rfl⟩

theorem step_tracks (h : s.Tracks m) (hstand : s.LogsStand e) (hstep : s.step m e = some s') :
    s'.Tracks m := by
  obtain ⟨⟨a, fed, hrel, hholds, horacle⟩, hup⟩ := h
  cases e with
  | base e =>
    obtain ⟨t, ht, rfl⟩ := Option.map_eq_some_iff.mp hstep
    obtain ⟨a', fed', hg, -, -, hrel', hholds'⟩ :=
      step_clusterRel inherited_isSlack hrel hstand ht
    exact ⟨⟨a', fed', hrel', fun p => hholds' p (hholds p), horacle.grows hg⟩,
      step_upToCommit inherited_isSlack hrel hholds hup hstand ht⟩
  | kill p =>
    obtain rfl := Option.some.inj hstep
    refine ⟨⟨a, fed, hrel.demote p, fun q => ?_, horacle⟩, fun q => ?_⟩
    · rcases setNode_demote_nodes (s := s.cluster) p q with heq | heq
      · rw [heq]
        exact hholds q
      · rw [heq]
        exact ⟨(hholds q).1, (hholds q).2⟩
    · rcases setNode_demote_nodes (s := s.cluster) p q with heq | heq
      · rw [heq]
        exact hup q
      · rw [heq]
        exact hup q
  | drain =>
    obtain rfl := Option.some.inj hstep
    refine ⟨⟨a, fed, hrel, hholds, ?_⟩, hup⟩
    dsimp only
    unfold drained
    split
    · exact horacle
    · rename_i l hfind
      obtain ⟨p, -, rfl⟩ := mem_simCluster.mp (List.mem_of_find?_eq_some hfind)
      rw [drainTo, hfind]
      exact horacle.drainFrom hrel.logs p 0
  | replay p =>
    obtain rfl := Option.some.inj hstep
    exact ⟨⟨a, fed, hrel, hholds, replayFromNode_oracleOk hrel.logs p _⟩, hup⟩
  | reset =>
    obtain rfl := Option.some.inj hstep
    exact ⟨⟨a, fed, hrel, hholds, new_oracleOk⟩, hup⟩

theorem run_tracks (halong : Along (step m) LogsStand (start m) es)
    (hrun : run (step m) (start m) es = some s) : s.Tracks m :=
  run_invariant step_tracks (start_tracks m) halong hrun

/-- Killing a node and reading logs bring no commands. -/
theorem run_commandsFrom {P : Command → Prop} (halong : Along (step m) LogsStand (start m) es)
    (hP : ∀ e ∈ es, ∀ c ∈ e.commands, P c) (hrun : run (step m) (start m) es = some s) :
    s.cluster.CommandsFrom P := by
  have hinv : s.Tracks m ∧ s.cluster.CommandsFrom P := by
    refine run_invariant (I := fun s => Tracks m s ∧ s.cluster.CommandsFrom P) ?_
      ⟨start_tracks m, start_commandsFrom P m⟩ (halong.and_forall hP) hrun
    rintro s s' e ⟨h, hcommands⟩ ⟨hstand, hPe⟩ hstep
    refine ⟨step_tracks h hstand hstep, ?_⟩
    cases e with
    | base e =>
      obtain ⟨t, ht, rfl⟩ := Option.map_eq_some_iff.mp hstep
      obtain ⟨⟨a, fed, hrel, -⟩, -⟩ := h
      refine step_commandsFrom hrel.votes hcommands hPe ?_ ht
      rintro p clock rfl
      exact hstand.votes.1 trivial
    | kill p =>
      obtain rfl := Option.some.inj hstep
      refine ⟨fun q => ?_, hcommands.sent⟩
      rcases setNode_demote_nodes (s := s.cluster) p q with heq | heq
      · rw [heq]
        exact hcommands.log q
      · rw [heq]
        exact hcommands.log q
    | drain | replay | reset =>
      obtain rfl := Option.some.inj hstep
      exact hcommands
  exact hinv.2

/-! ## Drains and replays -/

/-- Whatever logs the oracle was drained from on the way, it is where a replay
of the log of any node that has committed as much would put it. -/
theorem drains_eq_replay {p : String} (halong : Along (step m) LogsStand (start m) es)
    (hrun : run (step m) (start m) es = some s)
    (hle : s.model.appliedIndex ≤ (s.cluster.nodes p).commitIndex) :
    let replayed := (s.model.replayFromNode (s.cluster.nodes p) s.model.appliedIndex).2
    replayed.nextIndex = s.model.nextIndex ∧
      (∀ key : String, replayed.state[key]? = s.model.state[key]?) ∧
      ∀ txId : String, replayed.pending[txId]? = s.model.pending[txId]? := by
  obtain ⟨⟨a, fed, hrel, -, horacle⟩, -⟩ := run_tracks halong hrun
  have heffect := horacle.atEffect_take hrel.logs hle
  have hreplay := replayFromNode_atEffect (hle.trans (hrel.logs.node p).commit) s.model
  refine ⟨hreplay.nextIndex.trans heffect.nextIndex.symm, fun key => ?_, fun txId => ?_⟩
  · rw [hreplay.holds.state, heffect.holds.state]
  · rw [hreplay.holds.pending, heffect.holds.pending]

/-- The oracle is drained from `a`, `a` is killed, `b` is elected and commits an
entry with `c`, and the oracle is drained from `b`. -/
def twoLeaders : List HarnessEvent :=
  (oneEntry ++ oneHeartbeat).map .base ++ [.drain, .kill "a"] ++
    ([.becomeCandidate "b" someClock, .resume 2 someClock, .deliver 6 someClock,
      .receive 3 someClock, .resume 2 someClock, .propose "b" (.set "x" "2"), .leaderCheck "b",
      .resume 2 someClock, .resume 2 someClock, .resume 2 someClock, .deliver 8 someClock,
      .receive 4 someClock,
      -- `c` has refused; the next round starts at its first entry
      .leaderCheck "b", .resume 3 someClock, .resume 3 someClock, .resume 3 someClock,
      .deliver 10 someClock, .receive 5 someClock] : List Event).map .base ++ [.drain]

theorem drains_eq_replay_twoLeaders :
    ∃ s, run (step threeNodes) (start threeNodes) twoLeaders = some s ∧
      s.model.appliedIndex = 2 ∧ s.model.state["x"]? = some "2" ∧
      (s.model.replayFromNode (s.cluster.nodes "b") 2).2.state["x"]? = some "2" := by
  obtain ⟨s, hs, hindex, hx, hle⟩ : ∃ s, run (step threeNodes) (start threeNodes) twoLeaders =
      some s ∧ s.model.appliedIndex = 2 ∧ s.model.state["x"]? = some "2" ∧
      s.model.appliedIndex ≤ (s.cluster.nodes "b").commitIndex :=
    exists_run_of_any (by decide +kernel)
  have hreplay := (drains_eq_replay (by decide +kernel) hs hle).2.1 "x"
  rw [hindex] at hreplay
  exact ⟨s, hs, hindex, hx, hreplay.trans hx⟩

/-! ## The end of a scenario -/

/-- The oracle that was replayed from a node holds what the node holds. -/
theorem Tracks.contents_eq_replay (h : s.Tracks m) (p key : String) :
    (s.cluster.nodes p).stateMachine.contents key =
      (s.model.replayFromNode (s.cluster.nodes p)
        (s.cluster.nodes p).commitIndex).2.state[key]? := by
  obtain ⟨⟨a, fed, hrel, hholds, -⟩, hup⟩ := h
  rw [(replayFromNode_atEffect (hrel.logs.node p).commit s.model).get, ← hup p,
    ← (hrel.stores p).fed_eq (hholds p)]
  exact (hrel.stores p).contents key

/-- The leader reads what the oracle holds, but for keys with a value that a
table of its store hides. -/
theorem Tracks.readsAgree_iff (h : s.Tracks m) (p : String) :
    readsAgree { id := p, raft := s.cluster.nodes p }
        (s.model.replayFromNode (s.cluster.nodes p) (s.cluster.nodes p).commitIndex).2 = .pass ↔
      ∀ key value, (s.cluster.nodes p).stateMachine.contents key = some value →
        ¬(s.cluster.nodes p).stateMachine.HidesOlderValue key := by
  unfold readsAgree
  rw [forEach_toList_eq_pass_iff]
  have hlayout : StateMachine.Layout (s.cluster.nodes p).stateMachine := by
    obtain ⟨⟨a, fed, hrel, -⟩, -⟩ := h
    exact (hrel.stores p).layout
  have hrow : ∀ key value, (s.cluster.nodes p).stateMachine.contents key = some value →
      ((s.cluster.nodes p).stateMachine.get key = some value ↔
        ¬(s.cluster.nodes p).stateMachine.HidesOlderValue key) := by
    intro key value hvalue
    rw [← hvalue]
    exact StateMachine.get_eq_contents_iff hlayout key
  constructor
  · intro hpass key value hvalue
    have hread := hpass key value (by rw [← h.contents_eq_replay, hvalue])
    dsimp only at hread
    split_ifs at hread with hget
    exact (hrow key value hvalue).mp hget
  · intro hhides key value hvalue
    rw [← h.contents_eq_replay] at hvalue
    dsimp only
    rw [if_pos ((hrow key value hvalue).mpr (hhides key value hvalue))]

/-- What a node of no later term has applied is in the log of a leader. -/
theorem Tracks.appliedAgrees (h : s.Tracks m) {p q : String}
    (hlead : (s.cluster.nodes p).state = .leader)
    (hterm : (s.cluster.nodes q).currentTerm ≤ (s.cluster.nodes p).currentTerm) :
    OxideKv.appliedAgrees (s.cluster.nodes p).log { id := q, raft := s.cluster.nodes q } =
      .pass := by
  obtain ⟨⟨a, fed, hrel, hholds, -⟩, -⟩ := h
  have hnode := hrel.logs.node p
  obtain ⟨r, hr, rfl⟩ := hnode.leads hlead
  have hlog : r.log = (s.cluster.nodes r.leader).log :=
    (hrel.logs.inv.leader_log hr hnode.term).symm.trans hnode.log
  have hfed : fed q <+: (s.cluster.nodes r.leader).log := by
    rw [← hlog]
    exact committed_prefix_reign hrel.logs.inv
      ((hholds q).2.grows (Grows.refl a) hterm) hr
  have hnumbered : Numbered (s.cluster.nodes q).log := by
    rw [← (hrel.logs.node q).log]
    exact hrel.logs.numbered.of_wellFormed (hrel.logs.inv.log_wf q)
  unfold OxideKv.appliedAgrees
  rw [forEach_eq_pass_iff]
  dsimp only
  rw [← (hrel.stores q).fed_eq (hholds q)]
  intro entry hentry
  obtain ⟨k, hk⟩ := List.getElem?_of_mem hentry
  have hindex : entry.index = k + 1 := hnumbered k entry (getElem?_of_isPrefix (hholds q).1 hk)
  have hsame := getElem?_of_isPrefix hfed hk
  have hlt : k < (s.cluster.nodes r.leader).log.length := (List.getElem?_eq_some_iff.mp hsame).1
  rw [if_neg (by omega), if_neg (by omega), hindex, Nat.add_sub_cancel, hsame]
  simp [hindex]

/-- The checks at the end of a scenario in a state that is safe. -/
theorem Tracks.finalChecks {killed : List String} {outcome : String → TxDecision}
    (h : s.Tracks m) (hcommands : s.cluster.CommandsFrom (Command.Follows outcome))
    (hleader : ∀ p, (simCluster m s.cluster).aliveLeader killed =
        some { id := p, raft := s.cluster.nodes p } →
      (∀ q ∈ m.members, q ∉ killed →
        (s.cluster.nodes q).currentTerm ≤ (s.cluster.nodes p).currentTerm) ∧
      ∀ key, ¬(s.cluster.nodes p).stateMachine.HidesOlderValue key) :
    OxideKv.finalChecks (simCluster m s.cluster) killed s.model = .pass := by
  have hinvariants : invariantsHold (simCluster m s.cluster) = .pass := by
    obtain ⟨⟨a, fed, hrel, -⟩, hup⟩ := h
    rw [invariantsHold, assertInvariants_pass hrel.logs hup hcommands]
  unfold OxideKv.finalChecks
  split
  · exact hinvariants
  · rename_i l hfind
    have hmem := List.mem_of_find?_eq_some hfind
    have halive := List.find?_some hfind
    obtain ⟨p, -, rfl⟩ := mem_simCluster.mp hmem
    obtain ⟨hterms, hhides⟩ := hleader p hfind
    simp only [decide_eq_true_eq] at halive
    have hreads := (h.readsAgree_iff p).mpr fun key _ _ => hhides key
    have hfollowers : followersAgree (simCluster m s.cluster) killed
        { id := p, raft := s.cluster.nodes p } = .pass := by
      unfold followersAgree
      rw [forEach_eq_pass_iff]
      intro n hn
      obtain ⟨q, hq, rfl⟩ := mem_simCluster.mp hn
      dsimp only
      split_ifs with hskip
      · rfl
      · exact h.appliedAgrees halive.2 (hterms q hq fun hkilled => hskip (Or.inl hkilled))
    rw [hinvariants, hreads, hfollowers]
    rfl

/-- `a` has an entry of its own that it has told nobody when `b` is elected and
commits another one with `c`. -/
def staleLeader : List HarnessEvent :=
  (oneElection ++
    [.propose "a" (.set "x" "1"),
      .becomeCandidate "b" someClock, .resume 0 someClock, .deliver 3 someClock,
      .receive 1 someClock, .resume 0 someClock, .propose "b" (.set "x" "2"), .leaderCheck "b",
      .resume 0 someClock, .resume 0 someClock, .resume 0 someClock, .deliver 5 someClock,
      .receive 2 someClock] : List Event).map .base

/-- The first leader is picked, also when it is deposed.  Nothing is wrong then,
and a divergence is reported. -/
example : (run (step threeNodes) (start threeNodes) staleLeader).any (fun s => decide
    (invariantsHold (simCluster threeNodes s.cluster) = .pass ∧
      finalChecks (simCluster threeNodes s.cluster) [] s.model =
        .fail (.diverges "b" 1 2 1 1))) = true := by
  decide +kernel

end Harness

end OxideKv
