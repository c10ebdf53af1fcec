import OxideKv.Raft.MembershipChange

/-!
# The way out of a joint configuration

The second entry of a membership change is appended by the leader that
proposed the first one, when it applies it; it waits in a field that only this
leader has and that a restart clears.  Another leader that finds the joint
configuration in its log has no means to end it.

`ExitsFollow` says of the configuration of a node and those ahead in its log
that every joint one is followed by its simple one.  A view is `Leaving` in this
state, and also when the next configuration is a joint one whose simple one
waits.  When a node is elected only so, and a change begins only where the last
one has ended, a leader in a joint configuration always has the simple one ahead
(`joint_on_its_way_out`).
-/

namespace OxideKv

open Relation Run

/-- Every joint configuration of the list has its simple one behind it. -/
def ExitsFollow : List Configuration → Prop
  | [] => True
  | .simple _ :: rest => ExitsFollow rest
  | .joint _ new :: rest => .simple new ∈ rest ∧ ExitsFollow rest

instance decidableExitsFollow : (l : List Configuration) → Decidable (ExitsFollow l)
  | [] => .isTrue trivial
  | .simple _ :: rest => decidableExitsFollow rest
  | .joint _ new :: rest =>
      have := decidableExitsFollow rest
      inferInstanceAs (Decidable (.simple new ∈ rest ∧ ExitsFollow rest))

theorem ExitsFollow.tail {config : Configuration} {rest : List Configuration}
    (h : ExitsFollow (config :: rest)) : ExitsFollow rest := by
  cases config with
  | simple servers => exact h
  | joint old new => exact h.2

theorem ExitsFollow.append_simple {l : List Configuration} (h : ExitsFollow l)
    (servers : List ServerId) : ExitsFollow (l ++ [.simple servers]) := by
  induction l with
  | nil => trivial
  | cons config rest ih =>
    cases config with
    | simple _ => exact ih h
    | joint old new => exact ⟨List.mem_append_left _ h.1, ih h.2⟩

/-- A configuration with one list of servers. -/
def Configuration.IsSimple (config : Configuration) : Prop := ∃ servers, config = .simple servers

/-- Every joint configuration of the view has an end: its simple one is ahead,
or it is the next one to be applied and its simple one waits. -/
inductive Leaving : ConfigView → Prop where
  | follows (v : ConfigView) (h : ExitsFollow (v.config :: v.ahead)) : Leaving v
  | waits (servers old new : List ServerId) (rest : List Configuration) (h : ExitsFollow rest) :
      Leaving ⟨.simple servers, .joint old new :: rest, some (.simple new)⟩

instance (v : ConfigView) : Decidable (Leaving v) :=
  decidable_of_iff
    (ExitsFollow (v.config :: v.ahead) ∨
      (match v with
        | ⟨.simple _, .joint _ new :: rest, some (.simple new')⟩ =>
            decide (new = new' ∧ ExitsFollow rest)
        | _ => false) = true)
    (by
      constructor
      · rintro (h | h)
        · exact .follows v h
        · split at h
          · obtain ⟨rfl, hrest⟩ := of_decide_eq_true h
            exact .waits _ _ _ _ hrest
          · cases h
      · intro h
        cases h with
        | follows _ h => exact Or.inl h
        | waits servers old new rest h => exact Or.inr (decide_eq_true ⟨rfl, h⟩))

theorem Leaving.installs {v v' : ConfigView} (h : Leaving v)
    (hpending : ∀ c, v.pending = some c → c.IsSimple) (hstep : Installs v v') :
    Leaving v' ∧ ∀ c, v'.pending = some c → c.IsSimple := by
  cases hstep with
  | next config next rest pending =>
    refine ⟨?_, nofun⟩
    cases h with
    | follows _ h =>
      refine .follows _ ?_
      have hrest : ExitsFollow (next :: rest) := h.tail
      cases pending with
      | none =>
        show ExitsFollow (next :: (rest ++ []))
        rw [List.append_nil]
        exact hrest
      | some simpleNew =>
        obtain ⟨servers, rfl⟩ := hpending simpleNew rfl
        show ExitsFollow (next :: (rest ++ secondPhase next (some (.simple servers))))
        simp only [secondPhase]
        split_ifs
        · exact hrest.append_simple servers
        · rw [List.append_nil]
          exact hrest
    | waits servers old new rest h =>
      refine .follows _ ?_
      show ExitsFollow (.joint old new ::
        (rest ++ secondPhase (.joint old new) (some (.simple new))))
      have hmatch : secondPhase (.joint old new) (some (.simple new)) = [.simple new] := by
        simp [secondPhase]
      rw [hmatch]
      exact ⟨List.mem_append_right _ (List.mem_singleton.mpr rfl), h.append_simple new⟩

theorem Leaving.installsAll {v v' : ConfigView} (hsteps : ReflTransGen Installs v v')
    (h : Leaving v) (hpending : ∀ c, v.pending = some c → c.IsSimple) : Leaving v' := by
  have hboth : Leaving v' ∧ ∀ c, v'.pending = some c → c.IsSimple := by
    induction hsteps with
    | refl => exact ⟨h, hpending⟩
    | tail _ hstep ih => exact ih.1.installs ih.2 hstep
  exact hboth.1

theorem Leaving.ahead {v : ConfigView} {old new : List ServerId} (h : Leaving v)
    (hjoint : v.config = .joint old new) : .simple new ∈ v.ahead := by
  cases h with
  | follows _ h =>
    rw [hjoint] at h
    exact h.1
  | waits => cases hjoint

namespace RaftNode

/-! ## Runs with elections and restarts -/

/-- A step that leaves a way out: a second phase that waits can be written when
a leader applies entries, a change begins where the last one has ended, and a
node that is elected, or started without peers, finds no joint configuration
without a simple one behind it. -/
def LeavesExit (n : RaftNode) : LifeEvent → Prop
  | .call e =>
      (n.state = .leader → e.AppliesOnLeader = true → n.SecondPhaseReady) ∧ e.ProposesPlain ∧
        (n.AcceptsChange e = true → n.Settled) ∧
        match e with
        | .voteQuorum _ term => n.state = .candidate → n.currentTerm = term → Leaving n.view
        | .preVoteAlone _ => n.state = .preCandidate → Leaving n.view
        | _ => True
  | .restart peers _ => peers = [] →
      ∀ old new, (n.storage.wal.filterMap LogEntry.installs).getLast? ≠ some (.joint old new)

/-- The list does not end in a joint configuration. -/
instance (l : List Configuration) : Decidable (∀ old new, l.getLast? ≠ some (.joint old new)) :=
  match h : l.getLast? with
  | none => .isTrue fun _ _ => by simp
  | some (.simple _) => .isTrue fun _ _ => by simp
  | some (.joint old new) => .isFalse fun hne => hne old new rfl

instance (n : RaftNode) : (e : LifeEvent) → Decidable (n.LeavesExit e)
  | .call e =>
      decidable_of_iff
        ((n.state = .leader → e.AppliesOnLeader = true → n.SecondPhaseReady) ∧ e.ProposesPlain ∧
          (n.AcceptsChange e = true → n.Settled) ∧
          (match e with
            | .voteQuorum _ term =>
                decide (n.state = .candidate → n.currentTerm = term → Leaving n.view)
            | .preVoteAlone _ => decide (n.state = .preCandidate → Leaving n.view)
            | _ => true) = true) (by cases e <;> simp only [LeavesExit, decide_eq_true_eq])
  | .restart peers _ =>
      inferInstanceAs (Decidable (peers = [] → ∀ old new,
        (n.storage.wal.filterMap LogEntry.installs).getLast? ≠ some (.joint old new)))

/-- Only a simple configuration waits, and the joint ones of a leader have an
end. -/
structure ExitInv (n : RaftNode) : Prop where
  known : Known (fun _ => True) Configuration.IsSimple n
  leaving : n.state = .leader → Leaving n.view

/-- `replay_logs` installs the configurations of the log one after the
other. -/
theorem replayLogs_config (clock : Clock) (n : RaftNode) :
    (replayLogs clock n).currentConfig =
      ((n.log.filterMap LogEntry.installs).getLast?).getD n.currentConfig := by
  have hfold : ∀ (entries : List (LogEntry × Nat)) (n : RaftNode),
      (entries.foldl (fun n e => replayCommand (clock.unixMs e.2) e.1.command n) n).currentConfig =
        (((entries.map Prod.fst).filterMap LogEntry.installs).getLast?).getD n.currentConfig := by
    intro entries
    induction entries with
    | nil => exact fun _ => rfl
    | cons e entries ih =>
      intro n
      rw [List.foldl_cons, ih, List.map_cons, List.filterMap_cons]
      cases hinst : e.1.installs with
      | none =>
        have hsame : (replayCommand (clock.unixMs e.2) e.1.command n).currentConfig =
            n.currentConfig := by
          have hplain := LogEntry.isPlain_of_installs hinst
          cases hc : e.1.command <;> first | rfl | (rw [hc] at hplain; cases hplain)
        rw [hsame]
      | some config =>
        rw [LogEntry.command_of_installs hinst, List.getLast?_cons]
        rfl
  have h := hfold n.log.zipIdx n
  rw [List.zipIdx_map_fst] at h
  exact h

/-- What a restart leaves of the configuration. -/
theorem restart_config {raftAddr : String} {peers : List String} {clock : Clock} {n r : RaftNode}
    (h : restart raftAddr peers clock n = some r) :
    r.pendingPostJointSimple = none ∧ (r.state = .leader → peers = []) ∧
      r.currentConfig = ((n.storage.wal.filterMap LogEntry.installs).getLast?).getD
        (.simple (serverAt raftAddr :: peers.map serverAt)) := by
  unfold restart at h
  split at h
  · cases h
  · rename_i sm hopen
    obtain ⟨n₁, hrestore, rfl⟩ := Option.map_eq_some_iff.mp h
    obtain ⟨-, sm₁, commitIndex, lastApplied, hr⟩ := restoreFromSnapshot_eq hrestore
    obtain ⟨sm₂, config, peers', hreplay⟩ := replayLogs_eq clock n₁
    have hconfig := replayLogs_config clock n₁
    cases peers with
    | nil =>
      subst hr
      refine ⟨by rw [hreplay]; rfl, fun _ => rfl, hconfig⟩
    | cons p peers =>
      subst hr
      refine ⟨by rw [hreplay]; rfl, ?_, hconfig⟩
      rw [hreplay]
      exact nofun

theorem becomeLeader_view (clock : Clock) (n : RaftNode) :
    (becomeLeader clock n).view = n.view := by
  unfold becomeLeader
  split_ifs <;> rfl

/-- A node that is elected keeps its log and its configuration. -/
theorem Elects.view_eq {n n' : RaftNode} {e : NodeEvent} (h : Elects n e n') :
    n'.view = n.view := by
  cases h with
  | quorum clock hs => exact becomeLeader_view clock n
  | alone clock hs =>
    obtain ⟨storage, -, -, -, heq⟩ := promoteToCandidate_eq clock n
    rw [becomeLeader_view, heq]
    rfl

theorem call_exitInv {n n' : RaftNode} {e : NodeEvent} (h : ExitInv n)
    (hleaves : n.LeavesExit (.call e)) (hstep : n.step e = some n') : ExitInv n' := by
  obtain ⟨hready, hplain, hsettled, helected⟩ := hleaves
  have hbrings : Brings (fun _ => True) Configuration.IsSimple n e := by
    cases e with
    | propose command => exact hplain
    | proposeBatch commands => exact hplain
    | appendEntries clock args => exact fun _ _ _ _ => trivial
    | _ => exact fun _ => ⟨trivial, _, rfl⟩
  refine ⟨step_known (fun _ _ => trivial) h.known hbrings hstep, fun hlead' => ?_⟩
  by_cases hlead : n.state = .leader
  · cases haccepts : n.AcceptsChange e with
    | true =>
      obtain ⟨-, -, -, hview⟩ := accepted_change haccepts hstep
      obtain ⟨⟨servers, hconfig⟩, hnone⟩ := hsettled haccepts
      rw [hconfig, hnone] at hview
      rw [hview]
      cases n.lastApplied - n.log.length with
      | zero => exact .waits servers _ _ [] trivial
      | succ k => exact .follows _ (by simp [ExitsFollow])
    | false =>
      cases hchange : e.IsChange with
      | true =>
        rw [(refused_change hchange haccepts hstep).view_eq]
        exact h.leaving hlead
      | false =>
        have hsteps := leader_installs hstep hlead hlead' hplain (hready hlead) hchange
        exact (h.leaving hlead).installsAll hsteps h.known.pending
  · have helects := step_elects hstep hlead hlead'
    rw [helects.view_eq]
    cases helects with
    | quorum clock hs => exact helected hs rfl
    | alone clock hs => exact helected hs

theorem lifeStep_exitInv {n n' : RaftNode} {e : LifeEvent} (h : ExitInv n)
    (hleaves : n.LeavesExit e) (hstep : n.lifeStep e = some n') : ExitInv n' := by
  cases e with
  | call e => exact call_exitInv h hleaves hstep
  | restart peers clock =>
    obtain ⟨hpending, hlead, hconfig⟩ := restart_config hstep
    obtain ⟨hlog, -, -, -, -, happlied, -⟩ := restart_eq hstep
    have hpending' : ∀ c, n'.pendingPostJointSimple = some c → c.IsSimple := by
      rw [hpending]
      exact nofun
    refine ⟨⟨trivial, fun _ _ _ _ => trivial, hpending'⟩, fun hs => .follows _ ?_⟩
    have hnone : n'.unapplied = [] := by
      unfold unapplied
      rw [happlied, hlog]
      show (n.storage.wal.drop n.storage.wal.length).filterMap _ = []
      rw [List.drop_length]
      rfl
    show ExitsFollow (n'.currentConfig :: n'.unapplied)
    rw [hconfig, hnone]
    cases hlast : (n.storage.wal.filterMap LogEntry.installs).getLast? with
    | none => trivial
    | some config =>
      cases config with
      | simple servers => trivial
      | joint old new => exact absurd hlast (hleaves (hlead hs) old new)

/-- A leader in a joint configuration has the simple one ahead in its log. -/
theorem joint_on_its_way_out {raftAddr : String} {peers : List String} {sm : StateMachine}
    {storage : RaftStorage} {clock : Clock} {es : List LifeEvent} {n : RaftNode}
    {old new : List ServerId}
    (hleaves : Along lifeStep LeavesExit (RaftNode.new raftAddr peers sm storage clock) es)
    (hrun : run lifeStep (RaftNode.new raftAddr peers sm storage clock) es = some n)
    (hlead : n.state = .leader) (hjoint : n.currentConfig = .joint old new) :
    ∃ i entry, n.lastApplied ≤ i ∧ n.log[i]? = some entry ∧
      entry.command = .installConfiguration (.simple new) := by
  have hstart : ExitInv (RaftNode.new raftAddr peers sm storage clock) :=
    ⟨⟨trivial, fun _ _ _ _ => trivial, nofun⟩, nofun⟩
  have hinv := run_invariant (fun h hl hs => lifeStep_exitInv h hl hs) hstart hleaves hrun
  have hahead : .simple new ∈ n.unapplied := (hinv.leaving hlead).ahead hjoint
  obtain ⟨entry, hentry, hinst⟩ := List.mem_filterMap.mp hahead
  obtain ⟨i, hi⟩ := List.mem_iff_getElem?.mp hentry
  rw [List.getElem?_drop] at hi
  exact ⟨_, entry, Nat.le_add_right _ _, hi, LogEntry.command_of_installs hinst⟩

/-- `a` is elected, begins to add `d` and applies the first entry. -/
def beginChange : List LifeEvent :=
  [.call (.becomeCandidate someClock), .call (.voteQuorum someClock 1),
    .call (.proposeAddNode (serverAt "d")),
    .call (confirms "b" [jointTo 1 ["a", "b", "c", "d"]])]

theorem joint_on_its_way_out_begin_change :
    ∃ n, run lifeStep (freshNode "a" ["b", "c"]) beginChange = some n ∧ n.state = .leader ∧
      n.currentConfig =
        .joint (["a", "b", "c"].map serverAt) (["a", "b", "c", "d"].map serverAt) ∧
      ∃ i entry, n.lastApplied ≤ i ∧ n.log[i]? = some entry ∧
        entry.command = .installConfiguration (.simple (["a", "b", "c", "d"].map serverAt)) := by
  obtain ⟨n, hrun, hlead, hjoint⟩ : ∃ n, run lifeStep (freshNode "a" ["b", "c"]) beginChange =
      some n ∧ n.state = .leader ∧ n.currentConfig =
        .joint (["a", "b", "c"].map serverAt) (["a", "b", "c", "d"].map serverAt) :=
    exists_run_of_any (by decide +kernel)
  have hleaves : Along lifeStep LeavesExit (freshNode "a" ["b", "c"]) beginChange := by
    decide +kernel
  exact ⟨n, hrun, hlead, hjoint, joint_on_its_way_out hleaves hrun hlead hjoint⟩

/-- `b` gets the first entry of a change from the leader of term 1, is elected
in term 2, and commits it with an entry of its own that `c` confirms. -/
def nextLeader : List LifeEvent :=
  [.call (.appendEntries someClock
      { term := 1, leaderId := "a", prevLogIndex := 0, prevLogTerm := 0,
        entries := [jointTo 1 ["a", "b", "c", "d"]], leaderCommit := 0 }),
    .call (.becomeCandidate someClock), .call (.voteQuorum someClock 2),
    .call (.propose (.set "x" "1")),
    .call (.appendReply someClock "c"
      { term := 2, leaderId := "b", prevLogIndex := 0, prevLogTerm := 0,
        entries := [jointTo 1 ["a", "b", "c", "d"],
          { term := 2, index := 2, command := .set "x" "1" }], leaderCommit := 0 }
      { term := 2, success := true })]

theorem joint_stays_after_nextLeader :
    ∃ n, run lifeStep (freshNode "b" ["a", "c"]) nextLeader = some n ∧ n.state = .leader ∧
      n.currentConfig =
        .joint (["a", "b", "c"].map serverAt) (["a", "b", "c", "d"].map serverAt) ∧
      n.pendingPostJointSimple = none ∧
      ∀ e ∈ n.log, e.command ≠
        .installConfiguration (.simple (["a", "b", "c", "d"].map serverAt)) :=
  exists_run_of_any (by decide +kernel)

end RaftNode

end OxideKv
