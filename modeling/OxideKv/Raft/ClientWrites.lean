import OxideKv.Raft.Restart

/-!
# Acknowledged writes

`apply_mutation` answers `ok` with the index of the entry as soon as the
leader has appended it.  Nothing is replicated then, so whether the entry is
there for good depends on what happens next.  `WriteSurvives` is the condition
on the steps that follow: nobody is elected before the entry is committed.
-/

namespace OxideKv

open Quorum ReplicatedLog RaftNode Run

namespace RaftNode

/-- `apply_mutation`, up to the call of `sync_logs`: the index that an answer
with status `ok` carries. -/
def applyMutation (command : Command) (n : RaftNode) : Option Nat × RaftNode :=
  let (ok, n') := propose command n
  (if ok then some n'.log.length else none, n')

theorem applyMutation_eq_some {command : Command} {n : RaftNode} {i : Nat}
    (h : (n.applyMutation command).1 = some i) :
    n.state = .leader ∧ i = n.log.length + 1 ∧ ∃ storage, (propose command n).2 =
      { n with storage := storage, log := n.log ++ [n.nextEntry command] } := by
  unfold applyMutation at h
  dsimp only at h
  split_ifs at h with hok
  obtain ⟨hs, storage, heq⟩ := propose_eq_true hok
  refine ⟨hs, ?_, storage, heq⟩
  rw [← Option.some.inj h, heq, List.length_append]
  rfl

end RaftNode

/-- A node of a term up to `T` has committed `entry` at the index `i`. -/
def Cluster.HasCommitted (m : Membership) (s : Cluster) (T i : Nat) (entry : LogEntry) : Prop :=
  ∃ r ∈ m.members, (s.nodes r).currentTerm ≤ T ∧ i ≤ (s.nodes r).commitIndex ∧
    (s.nodes r).log[i - 1]? = some entry

instance (m : Membership) (s : Cluster) (T i : Nat) (entry : LogEntry) :
    Decidable (s.HasCommitted m T i entry) :=
  inferInstanceAs (Decidable (∃ r ∈ m.members, _))

/-- The logs survive, and a node is elected only when the entry is
committed. -/
structure WriteSurvives (m : Membership) (i : Nat) (entry : LogEntry) (s : Cluster) (e : Event) :
    Prop where
  logs : LogsSurvive inherited s e
  elected : ∀ c ∈ s.nodeEvent e, (s.nodes c.1).IsElection c.2 →
    s.HasCommitted m (s.nodes c.1).currentTerm i entry

instance (m : Membership) (i : Nat) (entry : LogEntry) (s : Cluster) (e : Event) :
    Decidable (WriteSurvives m i entry s e) :=
  decidable_of_iff (LogsSurvive inherited s e ∧ ∀ c ∈ s.nodeEvent e,
      (s.nodes c.1).IsElection c.2 → s.HasCommitted m (s.nodes c.1).currentTerm i entry)
    ⟨fun ⟨h₁, h₂⟩ => ⟨h₁, h₂⟩, fun ⟨h₁, h₂⟩ => ⟨h₁, h₂⟩⟩

/-- The replicated log of the cluster, and leaders that all have the entry. -/
structure LeadersHave (m : Membership) (i : Nat) (entry : LogEntry) (s : Cluster) : Prop where
  related : ∃ a : Past, VoteRel m a.ballot s ∧ LogRel inherited m a s
  leaders : ∀ q ∈ m.members, (s.nodes q).state = .leader → (s.nodes q).log[i - 1]? = some entry

section Steps

variable {m : Membership} {i : Nat} {entry : LogEntry} {s s' : Cluster}

/-- A leader has what a node of a term up to its own has committed. -/
theorem leader_has_committed {a a' : Past} (h : LogRel inherited m a s)
    (h' : LogRel inherited m a' s') (hg : Grows a a') {q : String}
    (hlead : (s'.nodes q).state = .leader) (hi : 0 < i)
    (hcommitted : s.HasCommitted m (s'.nodes q).currentTerm i entry) :
    (s'.nodes q).log[i - 1]? = some entry := by
  obtain ⟨r, -, hterm, hle, hentry⟩ := hcommitted
  obtain ⟨reign, hreign, rfl⟩ := (h'.node q).leads hlead
  have hlog : reign.log = (s'.nodes reign.leader).log :=
    (h'.inv.leader_log hreign (h'.node _).term).symm.trans (h'.node _).log
  have hp := committed_prefix_reign h'.inv ((h.node r).committed.grows hg hterm) hreign
  rw [hlog] at hp
  refine getElem?_of_isPrefix hp ?_
  rw [List.getElem?_take_of_lt (by omega)]
  exact hentry

theorem step_leadersHave (hi : 0 < i) (h : LeadersHave m i entry s) {e : Event}
    (hsurvive : WriteSurvives m i entry s e) (hstep : s.step m e = some s') :
    LeadersHave m i entry s' := by
  obtain ⟨a, hv, hl⟩ := h.related
  obtain ⟨a', hg, hv', hl'⟩ := step_survives inherited_isSlack hv hl hsurvive.logs hstep
  refine ⟨⟨a', hv', hl'⟩, fun q hq hlead => ?_⟩
  rcases Cluster.step_node hstep q with hsame | ⟨ne, hne, hnstep⟩ | ⟨clock, -, hstart⟩
  · rw [hsame] at hlead ⊢
    exact h.leaders q hq hlead
  · by_cases hold : (s.nodes q).state = .leader
    · exact getElem?_of_isPrefix (step_leader hnstep hold hlead).2 (h.leaders q hq hold)
    · -- the step elects the node
      obtain ⟨r, hr, hterm, hrest⟩ :=
        hsurvive.elected _ hne (step_elects hnstep hold hlead).isElection
      have hmono := hg.term q
      rw [(hl.node q).term, (hl'.node q).term] at hmono
      exact leader_has_committed hl hl' hg hlead hi ⟨r, hr, hterm.trans hmono, hrest⟩
  · rw [Cluster.startup_follower hstart] at hlead
    cases hlead

/-- A proposal is a step that the logs survive. -/
theorem logsSurvive_propose (p : String) (command : Command) :
    LogsSurvive inherited s (.propose p command) := by
  refine ⟨fun _ => ⟨⟨id, ?_⟩, trivial, ?_⟩, nofun⟩
  · rintro c hc
    obtain rfl : (p, .propose command) = c := Option.some.inj hc
    trivial
  · rintro c hc
    obtain rfl : (p, .propose command) = c := Option.some.inj hc
    trivial

end Steps

/-- Every later leader has the command of an acknowledged write at its
index. -/
theorem acknowledged_write_kept {m : Membership} {es fs : List Event} {s s' t : Cluster}
    {p q : String} {command : Command} {i : Nat}
    (hbefore : Along (Cluster.step m) (LogsSurvive inherited) (Cluster.start m) es)
    (hs : run (Cluster.step m) (Cluster.start m) es = some s)
    (hpropose : s.step m (.propose p command) = some s')
    (hack : ((s.nodes p).applyMutation command).1 = some i)
    (hsole : ∀ q ∈ m.members, (s.nodes q).state = .leader → q = p)
    (hafter : Along (Cluster.step m) (WriteSurvives m i ((s.nodes p).nextEntry command)) s' fs)
    (ht : run (Cluster.step m) s' fs = some t)
    (hq : q ∈ m.members) (hlead : (t.nodes q).state = .leader) :
    ∃ entry, (t.nodes q).log[i - 1]? = some entry ∧ entry.command = command := by
  obtain ⟨hleader, rfl, storage, heq⟩ := applyMutation_eq_some hack
  obtain ⟨a, hv, hl⟩ : ∃ a : Past, VoteRel m a.ballot s ∧ LogRel inherited m a s := by
    refine run_invariant (I := fun s => ∃ a : Past, VoteRel m a.ballot s ∧ LogRel inherited m a s)
      ?_ ⟨State.init, start_voteRel m, start_logRel inherited m⟩ hbefore hs
    rintro s s' e ⟨a, hv, hl⟩ hsurvive hstep
    obtain ⟨a', -, h'⟩ := step_survives inherited_isSlack hv hl hsurvive hstep
    exact ⟨a', h'⟩
  obtain ⟨a', -, hv', hl'⟩ :=
    step_survives inherited_isSlack hv hl (logsSurvive_propose p command) hpropose
  have hnodes : s'.nodes = Function.update s.nodes p
      { s.nodes p with
        storage := storage
        log := (s.nodes p).log ++ [(s.nodes p).nextEntry command] } := by
    simp only [Cluster.step] at hpropose
    split_ifs at hpropose
    obtain rfl := Option.some.inj hpropose
    rw [heq]
    rfl
  have hstart : LeadersHave m ((s.nodes p).log.length + 1) ((s.nodes p).nextEntry command) s' := by
    refine ⟨⟨a', hv', hl'⟩, fun q hq hlead => ?_⟩
    rw [hnodes] at hlead ⊢
    by_cases hqp : q = p
    · subst hqp
      rw [Function.update_self, Nat.add_sub_cancel]
      exact List.getElem?_concat_length
    · rw [Function.update_of_ne hqp] at hlead
      exact absurd (hsole q hq hlead) hqp
  have hend := run_invariant (fun h hw he => step_leadersHave (Nat.succ_pos _) h hw he)
    hstart hafter ht
  exact ⟨_, hend.leaders q hq hlead, rfl⟩

/-- The entry of `a` reaches `b` and is committed; then `b` is elected by
`c`. -/
def committedThenElected : List Event :=
  [.leaderCheck "a", .resume 0 someClock, .resume 0 someClock, .resume 0 someClock,
    .deliver 2 someClock, .receive 1 someClock,
    .becomeCandidate "b" someClock, .resume 1 someClock, .deliver 5 someClock,
    .receive 2 someClock, .resume 1 someClock]

theorem acknowledged_write_kept_by_b :
    ∃ s s' t, run (Cluster.step threeNodes) (Cluster.start threeNodes) oneElection = some s ∧
      s.step threeNodes (.propose "a" (.set "x" "1")) = some s' ∧
      ((s.nodes "a").applyMutation (.set "x" "1")).1 = some 1 ∧
      run (Cluster.step threeNodes) s' committedThenElected = some t ∧
      (t.nodes "b").state = .leader ∧
      ∃ entry, (t.nodes "b").log[1 - 1]? = some entry ∧ entry.command = .set "x" "1" := by
  obtain ⟨s, hs, hack, hsole, hafter⟩ : ∃ s, run (Cluster.step threeNodes)
      (Cluster.start threeNodes) oneElection = some s ∧
      ((s.nodes "a").applyMutation (.set "x" "1")).1 = some 1 ∧
      (∀ q ∈ threeNodes.members, (s.nodes q).state = .leader → q = "a") ∧
      ∀ s' ∈ s.step threeNodes (.propose "a" (.set "x" "1")),
        Along (Cluster.step threeNodes)
          (WriteSurvives threeNodes 1 ((s.nodes "a").nextEntry (.set "x" "1"))) s'
          committedThenElected := exists_run_of_any (by decide +kernel)
  obtain ⟨t, ht, hlead⟩ : ∃ t, run (Cluster.step threeNodes) (Cluster.start threeNodes)
      (oneElection ++ .propose "a" (.set "x" "1") :: committedThenElected) = some t ∧
      (t.nodes "b").state = .leader := exists_run_of_any (by decide +kernel)
  obtain ⟨s₁, hs₁, ht⟩ := run_append_eq_some.mp ht
  obtain rfl : s = s₁ := Option.some.inj (hs.symm.trans hs₁)
  obtain ⟨s', hpropose, ht⟩ := run_cons_eq_some.mp ht
  exact ⟨s, s', t, hs, hpropose, hack, ht, hlead,
    acknowledged_write_kept (by decide +kernel) hs hpropose hack hsole (hafter s' hpropose) ht
      (by decide) hlead⟩

/-- `c` is elected by `b`, and neither has heard of the entry. -/
def electedWithout : List Event :=
  [.becomeCandidate "c" someClock, .becomeCandidate "c" someClock, .resume 0 someClock,
    .deliver 3 someClock, .receive 1 someClock, .resume 1 someClock]

theorem acknowledged_write_lost :
    ∃ s s' t, run (Cluster.step threeNodes) (Cluster.start threeNodes) oneElection = some s ∧
      s.step threeNodes (.propose "a" (.set "x" "1")) = some s' ∧
      ((s.nodes "a").applyMutation (.set "x" "1")).1 = some 1 ∧
      run (Cluster.step threeNodes) s' electedWithout = some t ∧
      (t.nodes "c").state = .leader ∧ (t.nodes "c").log[1 - 1]? = none := by
  obtain ⟨s, hs, hack⟩ : ∃ s, run (Cluster.step threeNodes) (Cluster.start threeNodes)
      oneElection = some s ∧ ((s.nodes "a").applyMutation (.set "x" "1")).1 = some 1 :=
    exists_run_of_any (by decide +kernel)
  obtain ⟨t, ht, hlead, hlost⟩ : ∃ t, run (Cluster.step threeNodes) (Cluster.start threeNodes)
      (oneElection ++ .propose "a" (.set "x" "1") :: electedWithout) = some t ∧
      (t.nodes "c").state = .leader ∧ (t.nodes "c").log[1 - 1]? = none :=
    exists_run_of_any (by decide +kernel)
  obtain ⟨s₁, hs₁, ht⟩ := run_append_eq_some.mp ht
  obtain rfl : s = s₁ := Option.some.inj (hs.symm.trans hs₁)
  obtain ⟨s', hpropose, ht⟩ := run_cons_eq_some.mp ht
  exact ⟨s, s', t, hs, hpropose, hack, ht, hlead, hlost⟩

end OxideKv
