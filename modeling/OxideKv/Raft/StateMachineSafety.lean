import OxideKv.Raft.Stores

/-!
# State machine safety

`run_clusterRel` carries the relation between a cluster and its replicated log
through a run without crashes.  Three results are read off it.

* `state_machine_safety`: no two nodes apply different entries at one index,
  and an applied entry stays in the log.
* `state_machine_eq_log_effect`: the store of a node holds what the entries it
  has applied have written, and the transactions that they have left open.
* `match_index_sound`: what a leader has on record for a peer is in the log of
  that peer.

They differ in what they allow a new leader to have on record for its peers
from an earlier leadership: `become_leader` does not reset `match_index`.
Entries of earlier terms do no harm to the commit rule, so the first two results
allow indices up to `inherited`; the last allows none.
-/

namespace OxideKv

open Quorum ReplicatedLog RaftNode Run

/-! ## Runs without crashes -/

section Runs

variable {f : RaftNode → Nat} {m : Membership}

theorem run_clusterRel (hf : IsSlack f) : ∀ {es : List Event} {a : Past}
    {fed : String → List LogEntry} {s s' : Cluster}, ClusterRel f m a fed s →
      (∀ p, Holds m a (fed p) (s.nodes p)) → Along (Cluster.step m) (LogsStand f) s es →
      run (Cluster.step m) s es = some s' →
      ∃ a' fed', Grows a a' ∧ (∀ p, fed p <+: fed' p) ∧ ClusterRel f m a' fed' s' ∧
        ∀ p, Holds m a' (fed' p) (s'.nodes p) := by
  intro es
  induction es with
  | nil =>
    intro a fed s s' h hholds _ hrun
    obtain rfl : s = s' := Option.some.inj hrun
    exact ⟨a, fed, Grows.refl a, fun _ => List.prefix_rfl, h, hholds⟩
  | cons e es ih =>
    rintro a fed s s' h hholds ⟨hstand, hrest⟩ hrun
    obtain ⟨t, he, hes⟩ := run_cons_eq_some.mp hrun
    obtain ⟨a₁, fed₁, hg₁, hfed₁, -, h₁, hholds₁⟩ := step_clusterRel hf h hstand he
    obtain ⟨a₂, fed₂, hg₂, hfed₂, h₂, hholds₂⟩ :=
      ih h₁ (fun p => hholds₁ p (hholds p)) (hrest t he) hes
    exact ⟨a₂, fed₂, hg₁.trans hg₂, fun p => (hfed₁ p).trans (hfed₂ p), h₂, hholds₂⟩

theorem start_holds (m : Membership) (p : String) :
    Holds m State.init [] ((Cluster.start m).nodes p) :=
  ⟨List.nil_prefix, Committed.nil⟩

/-- What a node has applied is the beginning of its log. -/
theorem NodeStore.fed_eq {a : Past} {l : List LogEntry} {n : RaftNode} (h : NodeStore m a l n)
    (hl : Holds m a l n) : l = n.log.take n.lastApplied := by
  rw [← h.length]
  exact List.prefix_iff_eq_take.mp hl.1

end Runs

/-! ## State machine safety -/

/-- The entry that a node has applied at an index is the one that it has
there for good, and the one that every other node applies there. -/
theorem state_machine_safety {m : Membership} {es fs : List Event} {t u : Cluster} {p : String}
    {i : Nat} (halong : Along (Cluster.step m) (LogsStand inherited) (Cluster.start m) (es ++ fs))
    (ht : run (Cluster.step m) (Cluster.start m) es = some t)
    (hu : run (Cluster.step m) t fs = some u) (hi : i < (t.nodes p).lastApplied) :
    ∃ entry, (t.nodes p).log[i]? = some entry ∧ (u.nodes p).log[i]? = some entry ∧
      ∀ q, i < (u.nodes q).lastApplied → (u.nodes q).log[i]? = some entry := by
  obtain ⟨hfirst, hsecond⟩ := halong.append ht
  obtain ⟨a, fed, -, -, h, hholds⟩ := run_clusterRel inherited_isSlack
    (start_clusterRel inherited m) (start_holds m) hfirst ht
  obtain ⟨a', fed', hg, hfed, h', hholds'⟩ :=
    run_clusterRel inherited_isSlack h hholds hsecond hu
  have hlen : i < (fed p).length := by
    rw [(h.stores p).length]
    exact hi
  have hread : ∀ {l l' : List LogEntry}, l <+: l' → i < l.length → l'[i]? = l[i]? := by
    rintro l _ ⟨rest, rfl⟩ hlt
    exact List.getElem?_append_left hlt
  refine ⟨(fed p)[i], ?_, ?_, fun q hq => ?_⟩
  · rw [hread (hholds p).1 hlen, List.getElem?_eq_getElem]
  · rw [hread ((hfed p).trans (hholds' p).1) hlen, List.getElem?_eq_getElem]
  · rw [← (h'.stores q).length] at hq
    rw [hread (hholds' q).1 hq]
    obtain ⟨B, hB⟩ := (h.stores p).committed
    obtain ⟨B', hB'⟩ := (h'.stores q).committed
    rcases committed_comparable h'.logs.inv (hB.grows hg le_rfl) hB' with hp | hp
    · rw [hread hp hlen, List.getElem?_eq_getElem]
    · rw [← hread hp hq, List.getElem?_eq_getElem]

/-- `a` is elected, and `b` confirms the entry that it proposes. -/
def oneEntry : List Event :=
  oneElection ++
    [.propose "a" (.set "x" "1"), .leaderCheck "a", .resume 0 someClock, .resume 0 someClock,
      .resume 0 someClock, .deliver 2 someClock, .receive 1 someClock]

/-- `b` hears of the commit. -/
def oneHeartbeat : List Event :=
  [.leaderCheck "a", .resume 1 someClock, .resume 1 someClock, .deliver 4 someClock]

theorem state_machine_safety_one_entry :
    ∃ t u, run (Cluster.step threeNodes) (Cluster.start threeNodes) oneEntry = some t ∧
      run (Cluster.step threeNodes) t oneHeartbeat = some u ∧ 0 < (t.nodes "a").lastApplied ∧
      0 < (u.nodes "b").lastApplied ∧
      ∃ entry, (t.nodes "a").log[0]? = some entry ∧ (u.nodes "b").log[0]? = some entry := by
  obtain ⟨u, hu, hb⟩ : ∃ u, run (Cluster.step threeNodes) (Cluster.start threeNodes)
      (oneEntry ++ oneHeartbeat) = some u ∧ 0 < (u.nodes "b").lastApplied :=
    exists_run_of_any (by decide +kernel)
  obtain ⟨t, ht, ha⟩ : ∃ t, run (Cluster.step threeNodes) (Cluster.start threeNodes) oneEntry =
      some t ∧ 0 < (t.nodes "a").lastApplied := exists_run_of_any (by decide +kernel)
  obtain ⟨t', ht', hu⟩ := run_append_eq_some.mp hu
  obtain rfl : t = t' := Option.some.inj (ht.symm.trans ht')
  obtain ⟨entry, hentry, -, hall⟩ := state_machine_safety (by decide +kernel) ht hu ha
  exact ⟨t, u, ht, hu, ha, hb, entry, hentry, hall "b" hb⟩

/-- The two leaders of term 2 both commit an entry of their own with the help
of `a`. -/
def twoCommits : List Event :=
  lateRefusal ++
    [.propose "b" (.set "x" "1"), .leaderCheck "b", .resume 2 someClock, .resume 2 someClock,
      .deliver 6 someClock, .receive 3 someClock,
      .propose "c" (.set "x" "2"), .leaderCheck "c", .resume 3 someClock, .resume 3 someClock,
      .deliver 7 someClock, .receive 4 someClock]

theorem different_entries_after_twoCommits :
    (∀ e ∈ twoCommits, ¬e.IsCrash) ∧
      ∃ s, run (Cluster.step threeNodes) (Cluster.start threeNodes) twoCommits = some s ∧
        0 < (s.nodes "b").lastApplied ∧ 0 < (s.nodes "c").lastApplied ∧
        (s.nodes "b").log[0]? ≠ (s.nodes "c").log[0]? :=
  ⟨by decide, exists_run_of_any (by decide +kernel)⟩

/-- The state machine of a node, with the transactions it has pending, is the
effect of what the node has applied. -/
theorem state_machine_eq_log_effect {m : Membership} {es : List Event} {t : Cluster}
    (halong : Along (Cluster.step m) (LogsStand inherited) (Cluster.start m) es)
    (ht : run (Cluster.step m) (Cluster.start m) es = some t) (p : String) :
    let applied := (t.nodes p).log.take (t.nodes p).lastApplied
    applied.length = (t.nodes p).lastApplied ∧
      (∀ key, (t.nodes p).stateMachine.contents key = logEffect applied key) ∧
      (t.nodes p).stateMachine.staged = logStaged Staged.none (applied.map LogEntry.command) := by
  obtain ⟨a, fed, -, -, h, hholds⟩ := run_clusterRel inherited_isSlack
    (start_clusterRel inherited m) (start_holds m) halong ht
  have hstore := h.stores p
  rw [← hstore.fed_eq (hholds p)]
  exact ⟨hstore.length, hstore.contents, hstore.staged⟩

theorem state_machine_eq_log_effect_one_entry :
    ∃ t, run (Cluster.step threeNodes) (Cluster.start threeNodes) (oneEntry ++ oneHeartbeat) =
        some t ∧ (t.nodes "b").lastApplied = 1 ∧
      (t.nodes "b").stateMachine.contents "x" = some "1" := by
  obtain ⟨t, ht, hlast, heffect⟩ : ∃ t, run (Cluster.step threeNodes) (Cluster.start threeNodes)
      (oneEntry ++ oneHeartbeat) = some t ∧ (t.nodes "b").lastApplied = 1 ∧
      logEffect ((t.nodes "b").log.take (t.nodes "b").lastApplied) "x" = some "1" :=
    exists_run_of_any (by decide +kernel)
  have hstore := state_machine_eq_log_effect (by decide +kernel) ht "b"
  exact ⟨t, ht, hlast, (hstore.2.1 "x").trans heffect⟩

/-! ## The match index -/

/-- What a leader has on record for a peer that has not gone past its term. -/
theorem match_index_sound {m : Membership} {es : List Event} {t : Cluster} {n p : String} {k : Nat}
    (halong : Along (Cluster.step m) (LogsStand fun _ => 0) (Cluster.start m) es)
    (ht : run (Cluster.step m) (Cluster.start m) es = some t)
    (hlead : (t.nodes n).state = .leader) (hp : p ∈ m.peers n)
    (hmatch : (t.nodes n).matchIndex p = some k)
    (hterm : (t.nodes p).currentTerm ≤ (t.nodes n).currentTerm) :
    k ≤ (t.nodes p).log.length ∧ k ≤ (t.nodes n).log.length ∧
      (t.nodes p).log.take k = (t.nodes n).log.take k := by
  obtain ⟨a, fed, -, -, h, -⟩ := run_clusterRel zero_isSlack
    (start_clusterRel _ m) (start_holds m) halong ht
  have hnode := h.logs.node n
  obtain ⟨r, hr, rfl⟩ := hnode.leads hlead
  have hlog : r.log = (t.nodes r.leader).log :=
    (h.logs.inv.leader_log hr hnode.term).symm.trans hnode.log
  have hfor : (t.nodes r.leader).matchIndexFor p = k := by
    unfold matchIndexFor
    rw [hmatch]
    rfl
  have hack : k ≤ a.ack p (t.nodes r.leader).currentTerm := by
    have hmatched := hnode.matched hlead p hp
    rw [hfor] at hmatched
    omega
  have hle := hack.trans (h.logs.inv.ack_le hr p)
  rcases h.logs.inv.ack_kept hr hack with hkept | ⟨T', r', hlt, hlt', -⟩
  · rw [(h.logs.node p).log, hlog] at hkept
    have hlen := hkept.length_le
    rw [hlog] at hle
    rw [List.length_take, Nat.min_eq_left hle] at hlen
    refine ⟨hlen, hle, ?_⟩
    rw [take_of_isPrefix hkept (by rw [List.length_take]; omega), List.take_take, Nat.min_self]
  · -- an exception would be a leader of a later term that the peer has followed
    rw [(h.logs.node p).term] at hlt'
    omega

theorem match_index_sound_one_entry :
    ∃ t, run (Cluster.step threeNodes) (Cluster.start threeNodes) oneEntry = some t ∧
      (t.nodes "a").state = .leader ∧ (t.nodes "a").matchIndex "b" = some 1 ∧
      (t.nodes "b").log.take 1 = (t.nodes "a").log.take 1 := by
  obtain ⟨t, ht, hlead, hmatch, hterm⟩ : ∃ t, run (Cluster.step threeNodes)
      (Cluster.start threeNodes) oneEntry = some t ∧ (t.nodes "a").state = .leader ∧
      (t.nodes "a").matchIndex "b" = some 1 ∧
      (t.nodes "b").currentTerm ≤ (t.nodes "a").currentTerm :=
    exists_run_of_any (by decide +kernel)
  exact ⟨t, ht, hlead, hmatch,
    (match_index_sound (by decide +kernel) ht hlead (by decide) hmatch hterm).2.2⟩

/-- Five nodes. -/
def fiveNodes : Membership where
  members := ["a", "b", "c", "d", "e"]
  nodup := by decide
  peers := fun p => ["a", "b", "c", "d", "e"].erase p
  perm := fun p hp => (List.perm_cons_erase hp).symm

/-- `b` confirms an entry of `a`, is overwritten by the next leader `c`, and
`a` is elected again with the votes of `d` and `e`. -/
def reElection : List Event :=
  [.becomeCandidate "a" someClock, .resume 0 someClock, .deliver 2 someClock,
    .deliver 3 someClock, .receive 0 someClock, .receive 1 someClock, .resume 0 someClock,
    .propose "a" (.set "x" "1"), .leaderCheck "a", .resume 0 someClock, .resume 0 someClock,
    .deliver 4 someClock, .receive 2 someClock,
    -- `c` is elected in term 2 and sends its entry to `b`
    .becomeCandidate "c" someClock, .becomeCandidate "c" someClock, .resume 1 someClock,
    .deliver 7 someClock, .deliver 8 someClock, .receive 3 someClock, .receive 4 someClock,
    .resume 2 someClock,
    .propose "c" (.set "x" "2"), .leaderCheck "c", .resume 2 someClock, .resume 2 someClock,
    .resume 2 someClock, .deliver 10 someClock,
    -- `a` hears of term 2 and is elected in term 3
    .deliver 5 someClock, .becomeCandidate "a" someClock, .resume 3 someClock,
    .deliver 13 someClock, .deliver 14 someClock, .receive 7 someClock, .receive 8 someClock,
    .resume 3 someClock]

theorem stale_match_index_after_reElection :
    (∀ e ∈ reElection, ¬e.IsCrash) ∧
      ∃ s, run (Cluster.step fiveNodes) (Cluster.start fiveNodes) reElection = some s ∧
        (s.nodes "a").state = .leader ∧ (s.nodes "a").matchIndex "b" = some 1 ∧
        (s.nodes "b").currentTerm ≤ (s.nodes "a").currentTerm ∧
        (s.nodes "b").log.take 1 ≠ (s.nodes "a").log.take 1 :=
  ⟨by decide, exists_run_of_any (by decide +kernel)⟩

end OxideKv
