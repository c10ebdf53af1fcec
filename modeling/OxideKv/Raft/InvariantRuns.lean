import OxideKv.Raft.Invariants
import OxideKv.Raft.LogCommands

/-!
# The invariant checks on the states of a run

`assertInvariants_of_run`: the checks of `invariants.rs` pass in every state
of every run without crashes, whatever the network does.  Four of them need
nothing else.  The scan for decisions reads the whole log, also what is not
committed, so it needs proposals that do not contradict each other.
-/

namespace OxideKv

open Quorum ReplicatedLog RaftNode Run Checks LastWrite SimCluster

/-- The nodes of the cluster, as the checks see them. -/
def simCluster (m : Membership) (s : Cluster) : SimCluster where
  nodes := m.members.map fun p => { id := p, raft := s.nodes p }
  nodup := by
    rw [List.map_map, show SimNode.id ∘ (fun p => { id := p, raft := s.nodes p }) = id from rfl,
      List.map_id]
    exact m.nodup

section Safe

variable {f : RaftNode → Nat} {m : Membership} {a : Past} {s : Cluster}

theorem mem_simCluster {n : SimNode} :
    n ∈ (simCluster m s).nodes ↔ ∃ p ∈ m.members, n = { id := p, raft := s.nodes p } := by
  simp [simCluster, eq_comm]

/-- A relation between any two nodes holds pair by pair. -/
theorem simCluster_pairwise {R : SimNode → SimNode → Prop}
    (h : ∀ p q, p ≠ q → R { id := p, raft := s.nodes p } { id := q, raft := s.nodes q }) :
    (simCluster m s).nodes.Pairwise R := by
  rw [simCluster, List.pairwise_map]
  exact m.nodup.imp fun {p q} hne => h p q hne

/-- A term has one leader. -/
theorem LogRel.leader_unique (h : LogRel f m a s) {p q : String}
    (hp : (s.nodes p).state = .leader) (hq : (s.nodes q).state = .leader)
    (hterm : (s.nodes p).currentTerm = (s.nodes q).currentTerm) : p = q := by
  obtain ⟨r, hr, rfl⟩ := (h.node p).leads hp
  obtain ⟨r', hr', rfl⟩ := (h.node q).leads hq
  rw [hterm, hr'] at hr
  rw [Option.some.inj hr]

/-- Two nodes hold the same entries up to the lower of their commit indices. -/
theorem LogRel.take_eq (h : LogRel f m a s) (p q : String) {k : Nat}
    (hp : k ≤ (s.nodes p).commitIndex) (hq : k ≤ (s.nodes q).commitIndex) :
    (s.nodes p).log.take k = (s.nodes q).log.take k := by
  have hlen := (h.node p).commit
  have hlen' := (h.node q).commit
  have hcut : ∀ {l l' : List LogEntry} {c c' : Nat}, k ≤ c → k ≤ c' → c ≤ l.length →
      l.take c <+: l'.take c' → l.take k = l'.take k := by
    intro l l' c c' hc hc' hle hpre
    have htake := take_of_isPrefix hpre (m := k) (by rw [List.length_take]; omega)
    rw [List.take_take, List.take_take, Nat.min_eq_left hc, Nat.min_eq_left hc'] at htake
    exact htake.symm
  rcases committed_comparable h.inv (h.node p).committed (h.node q).committed with hpre | hpre
  · exact hcut hp hq hlen hpre
  · exact (hcut hq hp hlen' hpre).symm

theorem LogRel.agreeUpTo {β : Type} (h : LogRel f m a s) (g : LogEntry → β) (p q : String) :
    AgreeUpTo g (min (s.nodes p).commitIndex (s.nodes q).commitIndex) (s.nodes p).log
      (s.nodes q).log := by
  have hlen := (h.node p).commit
  have hlen' := (h.node q).commit
  refine ⟨by omega, by omega, ?_⟩
  rw [h.take_eq p q (Nat.min_le_left _ _) (Nat.min_le_right _ _)]

theorem minCommit_le {n : SimNode} {nodes : List SimNode} (hn : n ∈ nodes) :
    minCommit nodes ≤ n.raft.commitIndex := by
  have hfold : ∀ (rest : List SimNode) (c : Nat),
      rest.foldl (fun m n => if n.raft.commitIndex < m then n.raft.commitIndex else m) c ≤ c ∧
        ∀ n ∈ rest, rest.foldl
          (fun m n => if n.raft.commitIndex < m then n.raft.commitIndex else m) c ≤
            n.raft.commitIndex := by
    intro rest
    induction rest with
    | nil => exact fun c => ⟨le_rfl, by simp⟩
    | cons x rest ih =>
      intro c
      rw [List.foldl_cons]
      obtain ⟨hle, hall⟩ := ih (if x.raft.commitIndex < c then x.raft.commitIndex else c)
      have hx : (if x.raft.commitIndex < c then x.raft.commitIndex else c) ≤ c ∧
          (if x.raft.commitIndex < c then x.raft.commitIndex else c) ≤ x.raft.commitIndex := by
        split_ifs <;> omega
      refine ⟨hle.trans hx.1, fun n hn => ?_⟩
      rcases List.mem_cons.mp hn with rfl | hn
      · exact hle.trans hx.2
      · exact hall n hn
  exact (hfold nodes _).2 n hn

/-- The committed part of the reference node is in every log. -/
theorem LogRel.durable (h : LogRel f m a s) {ref n : SimNode}
    (href : ref ∈ (simCluster m s).nodes) (hn : n ∈ (simCluster m s).nodes) :
    refLog (simCluster m s).nodes ref <+: n.raft.log.map fun e => fmtCommand e.command := by
  have hle := minCommit_le href
  have hle' := minCommit_le hn
  obtain ⟨p, -, rfl⟩ := mem_simCluster.mp href
  obtain ⟨q, -, rfl⟩ := mem_simCluster.mp hn
  unfold refLog
  dsimp only at hle hle' ⊢
  rw [h.take_eq p q hle hle']
  exact (List.take_prefix _ _).map _

/-- A decision that is found in a log is in an entry of it. -/
theorem exists_of_lastDecision {log : List LogEntry} {txId : String} {d : TxDecision}
    (h : lastDecision log txId = some d) : ∃ e ∈ log, e.command = .decideTx txId d := by
  obtain ⟨⟨term, d'⟩, hrecord, rfl⟩ := Option.map_eq_some_iff.mp h
  obtain ⟨e, he, hdec⟩ := List.mem_filterMap.mp (mem_of_record hrecord)
  refine ⟨e, he, ?_⟩
  cases hcmd : e.command with
  | decideTx txId' decision =>
    rw [hcmd] at hdec
    simp only [Option.some.injEq, Prod.mk.injEq] at hdec
    obtain ⟨rfl, -, rfl⟩ := hdec
    rfl
  | _ => simp [hcmd] at hdec

/-- The command does not decide a transaction against `outcome`. -/
def Command.Follows (outcome : String → TxDecision) (c : Command) : Prop :=
  ∀ txId d, c = .decideTx txId d → d = outcome txId

instance (outcome : String → TxDecision) (c : Command) : Decidable (c.Follows outcome) :=
  decidable_of_iff
    ((match c with
      | .decideTx txId d => decide (d = outcome txId)
      | _ => true) = true)
    (by cases c <;> simp [Command.Follows])

/-- The logs are safe, but for what is decided in them. -/
theorem LogRel.checks (h : LogRel f m a s) (hup : s.UpToCommit) :
    checkElectionSafety (simCluster m s) = .pass ∧
      checkLogMatchingProperty (simCluster m s) = .pass ∧
      checkStateMachineSafety (simCluster m s) = .pass ∧
      checkCommittedEntryDurability (simCluster m s) = .pass := by
  refine ⟨(checkElectionSafety_eq_pass_iff _).mpr ?_,
    (checkLogMatchingProperty_eq_pass_iff _).mpr ?_,
    (checkStateMachineSafety_eq_pass_iff _).mpr ?_,
    (checkCommittedEntryDurability_eq_pass_iff _).mpr (Or.inr fun ref href n hn => ?_)⟩
  · exact simCluster_pairwise fun p q hne hp hq hterm => hne (h.leader_unique hp hq hterm)
  · exact simCluster_pairwise fun p q _ => h.agreeUpTo _ p q
  · refine simCluster_pairwise fun p q _ => ?_
    dsimp only
    rw [hup p, hup q]
    exact h.agreeUpTo _ p q
  · exact h.durable (List.mem_of_getElem? href) hn

/-- The decisions in the logs are those of `outcome`. -/
theorem check2pcAtomicity_of_commandsFrom {outcome : String → TxDecision}
    (h : s.CommandsFrom (Command.Follows outcome)) :
    check2pcAtomicity (simCluster m s) = .pass := by
  refine (check2pcAtomicity_eq_pass_iff _).mpr fun x hx y hy txId d d' hd hd' => ?_
  have hdecided : ∀ {n : SimNode} {d : TxDecision}, n ∈ (simCluster m s).nodes →
      lastDecision n.raft.log txId = some d → d = outcome txId := by
    intro n d hn hlast
    obtain ⟨p, -, rfl⟩ := mem_simCluster.mp hn
    obtain ⟨e, he, hcmd⟩ := exists_of_lastDecision hlast
    exact h.log p e he txId d hcmd
  exact (hdecided hx hd).trans (hdecided hy hd').symm

theorem assertInvariants_pass (h : LogRel f m a s) (hup : s.UpToCommit)
    {outcome : String → TxDecision} (hcommands : s.CommandsFrom (Command.Follows outcome)) :
    assertInvariants (simCluster m s) = .pass := by
  obtain ⟨h₁, h₂, h₃, h₄⟩ := h.checks hup
  rw [assertInvariants, h₁, h₂, h₃, h₄, check2pcAtomicity_of_commandsFrom hcommands]
  rfl

end Safe

/-! ## The states of a run -/

/-- In every state of a run without crashes the first four checks pass.  All
five pass when no two proposals decide a transaction differently. -/
theorem assertInvariants_of_run {m : Membership} {es : List Event} {t : Cluster}
    (halong : Along (Cluster.step m) (LogsStand inherited) (Cluster.start m) es)
    (ht : run (Cluster.step m) (Cluster.start m) es = some t) :
    (checkElectionSafety (simCluster m t) = .pass ∧
      checkLogMatchingProperty (simCluster m t) = .pass ∧
      checkStateMachineSafety (simCluster m t) = .pass ∧
      checkCommittedEntryDurability (simCluster m t) = .pass) ∧
    ∀ outcome : String → TxDecision, (∀ e ∈ es, ∀ c ∈ e.commands, c.Follows outcome) →
      assertInvariants (simCluster m t) = .pass := by
  have hup := run_upToCommit inherited_isSlack halong ht
  obtain ⟨a, fed, hrel, -⟩ := run_logBacked inherited_isSlack halong ht
  exact ⟨hrel.logs.checks hup, fun outcome hfollows =>
    assertInvariants_pass hrel.logs hup
      (run_commandsFrom inherited_isSlack halong hfollows ht)⟩

/-- A transaction is committed: `b` has the decision and `c` has not. -/
def oneDecision : List Event :=
  oneElection ++
    [.propose "a" (.beginTx "t" [.put "x" "1"]), .propose "a" (.decideTx "t" .commit),
      .leaderCheck "a", .resume 0 someClock, .resume 0 someClock, .resume 0 someClock,
      .deliver 2 someClock, .receive 1 someClock, .proposeAbortTx "a" "u"]

theorem assertInvariants_of_run_oneDecision :
    ∃ t, run (Cluster.step threeNodes) (Cluster.start threeNodes) oneDecision = some t ∧
      (t.nodes "a").lastApplied = 2 ∧
      lastDecision (t.nodes "b").log "t" = some .commit ∧
      assertInvariants (simCluster threeNodes t) = .pass := by
  obtain ⟨t, ht, happlied, hdecided⟩ : ∃ t, run (Cluster.step threeNodes)
      (Cluster.start threeNodes) oneDecision = some t ∧ (t.nodes "a").lastApplied = 2 ∧
      lastDecision (t.nodes "b").log "t" = some .commit :=
    exists_run_of_any (by decide +kernel)
  exact ⟨t, ht, happlied, hdecided,
    (assertInvariants_of_run (by decide +kernel) ht).2
      (fun txId => if txId = "t" then .commit else .abort) (by decide +kernel)⟩

end OxideKv
