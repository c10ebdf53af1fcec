import OxideKv.Lib.Quorum
import OxideKv.Raft.MembershipChange

/-!
# Quorums of one configuration

An election counts a majority of all servers of the configuration, and a commit
under `Joint` one majority of `old` and one of `new`.  They meet because a
change is by one server: `all_servers` of a `Joint` is one of its two lists
(`OneServer`).  `OneServer` holds of every configuration that some node of a
group comes to know of (`run_oneServer`), whatever the group does with the
entries that its nodes have sent.
-/

namespace OxideKv

open Run

namespace Configuration

/-! ## One server at a time -/

/-- No server is listed twice, and the two lists of `joint` differ by at most
one server. -/
inductive OneServer : Configuration → Prop where
  | simple {servers : List ServerId} (h : (servers.map ServerId.nodeId).Nodup) :
      OneServer (.simple servers)
  | added {old : List ServerId} {server : ServerId}
      (h : ((old ++ [server]).map ServerId.nodeId).Nodup) :
      OneServer (.joint old (old ++ [server]))
  | removed {old : List ServerId} {nodeId : String} (h : (old.map ServerId.nodeId).Nodup) :
      OneServer (.joint old (old.filter fun s => s.nodeId ≠ nodeId))

theorem allServers_joint_of_listed {old new : List ServerId}
    (h : ∀ s ∈ new, s ∈ old) : (Configuration.joint old new).allServers = old := by
  simp only [allServers]
  induction new with
  | nil => rfl
  | cons s new ih =>
    have hlisted : old.any (fun x => x.nodeId == s.nodeId) = true :=
      List.any_eq_true.mpr ⟨s, h s (by simp), by simp⟩
    rw [List.foldl_cons, if_pos hlisted]
    exact ih fun s' hs' => h s' (List.mem_cons_of_mem s hs')

theorem allServers_joint_append {old : List ServerId} {server : ServerId}
    (h : ((old ++ [server]).map ServerId.nodeId).Nodup) :
    (Configuration.joint old (old ++ [server])).allServers = old ++ [server] := by
  have hold : (Configuration.joint old old).allServers = old :=
    allServers_joint_of_listed fun _ hs => hs
  have hnew : ¬old.any (fun x => x.nodeId == server.nodeId) = true := by
    intro hany
    obtain ⟨s, hs, heq⟩ := List.any_eq_true.mp hany
    rw [List.map_append, List.nodup_append] at h
    exact h.2.2 s.nodeId (List.mem_map_of_mem hs) server.nodeId (by simp) (beq_iff_eq.mp heq)
  simp only [allServers] at hold ⊢
  rw [List.foldl_append, hold, List.foldl_cons, if_neg hnew, List.foldl_nil]

namespace OneServer

variable {config : Configuration}

theorem nodup (h : OneServer config) : (config.allServers.map ServerId.nodeId).Nodup := by
  cases h with
  | simple h => exact h
  | added h =>
    rw [allServers_joint_append h]
    exact h
  | removed h =>
    rw [allServers_joint_of_listed fun s hs => List.mem_of_mem_filter hs]
    exact h

/-- One list of `joint` has all servers. -/
theorem allServers_eq {old new : List ServerId} (h : OneServer (.joint old new)) :
    (Configuration.joint old new).allServers = old ∨
      (Configuration.joint old new).allServers = new := by
  cases h with
  | added h => exact Or.inr (allServers_joint_append h)
  | removed h => exact Or.inl (allServers_joint_of_listed fun s hs => List.mem_of_mem_filter hs)

/-- One server leaves the dial list of a member, its own. -/
theorem length_peersOf (h : OneServer config) {nodeId : String}
    (hmember : config.contains nodeId = true) :
    (RaftNode.peersOf nodeId config).length + 1 = config.allServers.length := by
  have hone : (config.allServers.map ServerId.nodeId).count nodeId = 1 := by
    obtain ⟨s, hs, heq⟩ := List.any_eq_true.mp hmember
    refine List.count_eq_one_of_mem h.nodup ?_
    rw [← beq_iff_eq.mp heq]
    exact List.mem_map_of_mem hs
  have hself : config.allServers.countP (fun s => decide (s.nodeId = nodeId)) = 1 := by
    rw [List.count_eq_countP, List.countP_map] at hone
    exact hone
  have hsplit := List.length_eq_countP_add_countP (fun s : ServerId => decide (s.nodeId = nodeId))
    (l := config.allServers)
  unfold RaftNode.peersOf
  rw [List.length_map, ← List.countP_eq_length_filter]
  simp only [decide_eq_true_eq, ne_eq] at hsplit ⊢
  omega

/-- A change by one server of the servers of a configuration. -/
theorem of_changed {n : RaftNode} {e : NodeEvent} (h : OneServer n.currentConfig)
    (haccepts : n.AcceptsChange e = true) :
    OneServer (.joint n.currentConfig.allServers
        (RaftNode.changed n.currentConfig.allServers e)) ∧
      OneServer (.simple (RaftNode.changed n.currentConfig.allServers e)) := by
  cases e with
  | proposeAddNode server =>
    have hnew : n.currentConfig.contains server.nodeId = false := by
      simp only [RaftNode.AcceptsChange, RaftNode.proposeAddNode] at haccepts
      split_ifs at haccepts with hs hc
      · cases haccepts
      · cases haccepts
      · exact Bool.eq_false_iff.mpr hc
    have hnodup : ((n.currentConfig.allServers ++ [server]).map ServerId.nodeId).Nodup := by
      rw [List.map_append, List.nodup_append]
      refine ⟨h.nodup, by simp, fun a ha b hb hab => ?_⟩
      obtain ⟨s, hs, rfl⟩ := List.mem_map.mp ha
      obtain rfl : b = server.nodeId := by simpa using hb
      exact Bool.eq_false_iff.mp hnew (List.any_eq_true.mpr ⟨s, hs, by simp [hab]⟩)
    exact ⟨.added hnodup, .simple hnodup⟩
  | proposeRemoveNode nodeId =>
    exact ⟨.removed h.nodup, .simple (h.nodup.sublist (List.filter_sublist.map _))⟩
  | _ => cases haccepts

end OneServer

end Configuration

/-! ## The configurations of a group -/

/-- Nodes, and the entries that they have sent. -/
structure Group where
  nodes : String → RaftNode
  sent : List LogEntry

inductive GroupEvent where
  | call (p : String) (e : NodeEvent)
  | send (p : String)

namespace Group

/-- The entries that a call brings to a node. -/
def broughtBy : NodeEvent → List LogEntry
  | .appendEntries _ args => args.entries
  | _ => []

/-- A node runs a call, or it sends its log.  An `AppendEntries` can bring any
of the entries that were sent; no client proposes a configuration as a plain
command. -/
def step (g : Group) : GroupEvent → Option Group
  | .call p e =>
      if e.ProposesPlain ∧ broughtBy e ⊆ g.sent then
        ((g.nodes p).step e).map fun n => { g with nodes := Function.update g.nodes p n }
      else none
  | .send p => some { g with sent := g.sent ++ (g.nodes p).log }

/-- The nodes are in simple configurations with no server listed twice, and no
other configuration is known. -/
structure Simple (g : Group) : Prop where
  config : ∀ p, ∃ servers, (g.nodes p).currentConfig = .simple servers ∧ servers.Nodup ∧
    ∀ s ∈ servers, s.nodeId = s.addr
  log : ∀ p, PlainLog (g.nodes p).log
  pending : ∀ p, (g.nodes p).pendingPostJointSimple = none
  sent : PlainLog g.sent

/-- The configuration of a node, one in its log or the one that waits. -/
def Obtains (g : Group) (config : Configuration) : Prop :=
  ∃ p, (g.nodes p).currentConfig = config ∨
    (∃ e ∈ (g.nodes p).log, e.installs = some config) ∨
    (g.nodes p).pendingPostJointSimple = some config

structure OneServer (g : Group) : Prop where
  known : ∀ p, RaftNode.Known Configuration.OneServer Configuration.OneServer (g.nodes p)
  sent : ∀ e ∈ g.sent, ∀ config, e.installs = some config → config.OneServer

theorem Simple.oneServer {g : Group} (h : g.Simple) : g.OneServer := by
  have hplain : ∀ {log : List LogEntry}, PlainLog log →
      ∀ e ∈ log, ∀ config, e.installs = some config → config.OneServer := by
    intro log hlog e he config hc
    rw [LogEntry.installs_eq_none (hlog e he)] at hc
    cases hc
  refine ⟨fun p => ⟨?_, hplain (h.log p), fun c hc => ?_⟩, hplain h.sent⟩
  · obtain ⟨servers, heq, hnodup, haddr⟩ := h.config p
    rw [heq]
    refine .simple (hnodup.map_on fun s hs s' hs' hid => ?_)
    have hs_addr := haddr s hs
    have hs_addr' := haddr s' hs'
    cases s
    cases s'
    simp_all
  · rw [h.pending p] at hc
    cases hc

theorem step_oneServer {g g' : Group} {e : GroupEvent} (h : g.OneServer)
    (hstep : g.step e = some g') : g'.OneServer := by
  cases e with
  | send p =>
    obtain rfl := Option.some.inj hstep
    refine ⟨h.known, fun e he => ?_⟩
    rcases List.mem_append.mp he with he | he
    · exact h.sent e he
    · exact (h.known p).log e he
  | call p e =>
    simp only [step] at hstep
    split_ifs at hstep with hguard
    obtain ⟨n, hn, rfl⟩ := Option.map_eq_some_iff.mp hstep
    have hbrings : RaftNode.Brings Configuration.OneServer Configuration.OneServer
        (g.nodes p) e := by
      have hchange := fun haccepts => (h.known p).config.of_changed (e := e) haccepts
      cases e with
      | propose command => exact hguard.1
      | proposeBatch commands => exact hguard.1
      | appendEntries clock args => exact fun e he => h.sent e (hguard.2 he)
      | _ => exact hchange
    refine ⟨fun q => ?_, h.sent⟩
    by_cases hq : q = p
    · subst hq
      dsimp only
      rw [Function.update_self]
      exact RaftNode.step_known (fun _ hc => hc) (h.known q) hbrings hn
    · dsimp only
      rw [Function.update_of_ne hq]
      exact h.known q

/-- Every configuration that a group comes to know of. -/
theorem run_oneServer {g g' : Group} {es : List GroupEvent} (h : g.Simple)
    (hrun : run step g es = some g') {config : Configuration} (hobtains : g'.Obtains config) :
    config.OneServer := by
  have hg' : g'.OneServer := run_invariant (P := fun _ _ => True)
    (fun hI _ hstep => step_oneServer hI hstep) h.oneServer (along_of_forall (by simp) es g) hrun
  obtain ⟨p, rfl | ⟨e, he, hc⟩ | hc⟩ := hobtains
  · exact (hg'.known p).config
  · exact (hg'.known p).log e he config hc
  · exact (hg'.known p).pending config hc

end Group

/-! ## Quorums meet -/

/-- `request_votes` of `n`, which has installed `config`, takes the votes of
`voters` for a majority. -/
def RaftNode.AcceptsVotes (n : RaftNode) (config : Configuration) (voters : ServerId → Bool) :
    Prop :=
  (n.installConfiguration config).voteRound.totalNodes / 2 < config.allServers.countP voters

instance (n : RaftNode) (config : Configuration) (voters : ServerId → Bool) :
    Decidable (n.AcceptsVotes config voters) :=
  inferInstanceAs (Decidable (_ < _))

theorem RaftNode.installConfiguration_peers (config : Configuration) (n : RaftNode) :
    (n.installConfiguration config).peers = peersOf n.nodeId config := by
  unfold installConfiguration
  dsimp only
  split_ifs with hs
  · cases n.pendingPostJointSimple with
    | none => rfl
    | some simpleNew =>
      dsimp only
      split_ifs
      · obtain ⟨storage, -, -, ⟨heq, -⟩ | ⟨e, heq, -⟩⟩ := appendEntry_cases
          (nextEntry (.installConfiguration simpleNew)
            { n with
              currentConfig := config
              peers := peersOf n.nodeId config
              pendingPostJointSimple := none })
          { n with
            currentConfig := config
            peers := peersOf n.nodeId config
            pendingPostJointSimple := none }
        all_goals rw [heq]
      · rfl
  · rfl

namespace Configuration

variable {config : Configuration} {n : RaftNode} {voters : ServerId → Bool}

/-- A majority of the votes is one of all servers. -/
theorem OneServer.countP_voters (h : OneServer config)
    (hmember : config.contains n.nodeId = true) (hvotes : n.AcceptsVotes config voters) :
    config.allServers.length / 2 < config.allServers.countP voters := by
  have hlen := h.length_peersOf hmember
  unfold RaftNode.AcceptsVotes RaftNode.VoteRound.totalNodes RaftNode.voteRound at hvotes
  dsimp only at hvotes
  rw [RaftNode.installConfiguration_peers, hlen] at hvotes
  exact hvotes

/-- The servers that hold an index with a quorum are a majority of all of
them. -/
theorem OneServer.countP_reached (h : OneServer config) {matchIndex : IndexMap}
    {selfNodeId : String} {selfIndex index : Nat}
    (hreached : configQuorumReached config matchIndex selfNodeId selfIndex index = true) :
    config.allServers.length / 2 < config.allServers.countP fun s =>
      decide (index ≤ replicatedIndex matchIndex selfNodeId selfIndex s) := by
  cases config with
  | simple servers => exact of_decide_eq_true hreached
  | joint old new =>
    obtain ⟨hold, hnew⟩ := Bool.and_eq_true_iff.mp hreached
    rcases h.allServers_eq with heq | heq
    · rw [heq]
      exact of_decide_eq_true hold
    · rw [heq]
      exact of_decide_eq_true hnew

/-- Two quorums of one list of servers. -/
theorem majorityReached_meet {servers : List ServerId} {matchIndex matchIndex' : IndexMap}
    {selfNodeId selfNodeId' : String} {selfIndex selfIndex' index index' : Nat}
    (h : majorityReached servers matchIndex selfNodeId selfIndex index = true)
    (h' : majorityReached servers matchIndex' selfNodeId' selfIndex' index' = true) :
    ∃ s ∈ servers, index ≤ replicatedIndex matchIndex selfNodeId selfIndex s ∧
      index' ≤ replicatedIndex matchIndex' selfNodeId' selfIndex' s := by
  have hcount := of_decide_eq_true h
  have hcount' := of_decide_eq_true h'
  obtain ⟨s, hs, hmeet, hmeet'⟩ := Quorum.exists_mem_of_countP (l := servers)
    (p := fun s => decide (index ≤ replicatedIndex matchIndex selfNodeId selfIndex s))
    (r := fun s => decide (index' ≤ replicatedIndex matchIndex' selfNodeId' selfIndex' s))
    (by omega)
  exact ⟨s, hs, of_decide_eq_true hmeet, of_decide_eq_true hmeet'⟩

end Configuration

/-- Any two majorities of votes meet, a majority of votes meets every quorum of
a commit, and a quorum of `joint` meets those of its two lists. -/
theorem Group.quorums_meet {g g' : Group} {es : List GroupEvent} {config : Configuration}
    (hstart : g.Simple) (hrun : run step g es = some g') (hobtains : g'.Obtains config) :
    (∀ n n' : RaftNode, config.contains n.nodeId = true → config.contains n'.nodeId = true →
      ∀ voters voters', n.AcceptsVotes config voters → n'.AcceptsVotes config voters' →
      ∃ s ∈ config.allServers, voters s = true ∧ voters' s = true) ∧
    (∀ n : RaftNode, config.contains n.nodeId = true →
      ∀ voters, n.AcceptsVotes config voters →
      ∀ matchIndex selfNodeId selfIndex index,
        configQuorumReached config matchIndex selfNodeId selfIndex index = true →
      ∃ s ∈ config.allServers, voters s = true ∧
        index ≤ replicatedIndex matchIndex selfNodeId selfIndex s) ∧
    ∀ old new, config = .joint old new →
      ∀ matchIndex selfNodeId selfIndex index,
        configQuorumReached config matchIndex selfNodeId selfIndex index = true →
      ∀ servers, servers = old ∨ servers = new →
      ∀ matchIndex' selfNodeId' selfIndex' index',
        configQuorumReached (.simple servers) matchIndex' selfNodeId' selfIndex' index' = true →
      ∃ s ∈ servers, index ≤ replicatedIndex matchIndex selfNodeId selfIndex s ∧
        index' ≤ replicatedIndex matchIndex' selfNodeId' selfIndex' s := by
  have hone := run_oneServer hstart hrun hobtains
  refine ⟨?_, ?_, ?_⟩
  · intro n n' hn hn' voters voters' hvotes hvotes'
    have hcount := hone.countP_voters hn hvotes
    have hcount' := hone.countP_voters hn' hvotes'
    exact Quorum.exists_mem_of_countP (by omega)
  · intro n hn voters hvotes matchIndex selfNodeId selfIndex index hreached
    have hcount := hone.countP_voters hn hvotes
    have hcount' := hone.countP_reached hreached
    obtain ⟨s, hs, hvoter, hholds⟩ := Quorum.exists_mem_of_countP (l := config.allServers)
      (p := voters)
      (r := fun s => decide (index ≤ replicatedIndex matchIndex selfNodeId selfIndex s)) (by omega)
    exact ⟨s, hs, hvoter, of_decide_eq_true hholds⟩
  · rintro old new rfl matchIndex selfNodeId selfIndex index hreached servers hservers
      matchIndex' selfNodeId' selfIndex' index' hreached'
    obtain ⟨hold, hnew⟩ := Bool.and_eq_true_iff.mp hreached
    rcases hservers with rfl | rfl
    · exact Configuration.majorityReached_meet hold hreached'
    · exact Configuration.majorityReached_meet hnew hreached'

/-- `a` leads `b` and `c`. -/
def groupOfThree : Group :=
  { nodes := fun p =>
      if p = "b" then RaftNode.freshNode "b" ["a", "c"]
      else if p = "c" then RaftNode.freshNode "c" ["a", "b"]
      else RaftNode.leaderOfThree
    sent := [] }

theorem groupOfThree_simple : groupOfThree.Simple := by
  refine ⟨fun p => ?_, fun p => ?_, fun p => ?_, by simp [groupOfThree, PlainLog]⟩
  · unfold groupOfThree
    dsimp only
    split_ifs
    · exact ⟨["b", "a", "c"].map RaftNode.serverAt, by decide +kernel⟩
    · exact ⟨["c", "a", "b"].map RaftNode.serverAt, by decide +kernel⟩
    · exact ⟨["a", "b", "c"].map RaftNode.serverAt, by decide +kernel⟩
  · have hnil : (groupOfThree.nodes p).log = [] := by
      unfold groupOfThree
      dsimp only
      split_ifs <;> rfl
    simp [PlainLog, hnil]
  · unfold groupOfThree
    dsimp only
    split_ifs <;> rfl

/-- The joint configuration that adds `d` is installed with the help of `b`. -/
def addsFourth : List GroupEvent :=
  [.call "a" (.proposeAddNode (RaftNode.serverAt "d")), .send "a",
    .call "a" (RaftNode.confirms "b" [RaftNode.jointTo 1 ["a", "b", "c", "d"]]),
    .call "a" (RaftNode.confirms "d" [RaftNode.jointTo 1 ["a", "b", "c", "d"]])]

theorem Group.quorums_meet_addsFourth :
    ∃ g', run step groupOfThree addsFourth = some g' ∧
      (g'.nodes "a").currentConfig = .joint (["a", "b", "c"].map RaftNode.serverAt)
        (["a", "b", "c", "d"].map RaftNode.serverAt) ∧
      ∃ s ∈ (g'.nodes "a").currentConfig.allServers, s.nodeId ∈ ["b", "c", "d"] ∧
        1 ≤ replicatedIndex (g'.nodes "a").matchIndex "a" 1 s := by
  obtain ⟨g', hrun, hconfig, hmember, hvotes, hreached⟩ :
      ∃ g', run step groupOfThree addsFourth = some g' ∧
        (g'.nodes "a").currentConfig = .joint (["a", "b", "c"].map RaftNode.serverAt)
          (["a", "b", "c", "d"].map RaftNode.serverAt) ∧
        (g'.nodes "a").currentConfig.contains (g'.nodes "a").nodeId = true ∧
        (g'.nodes "a").AcceptsVotes (g'.nodes "a").currentConfig
          (fun s => decide (s.nodeId ∈ ["b", "c", "d"])) ∧
        configQuorumReached (g'.nodes "a").currentConfig (g'.nodes "a").matchIndex "a" 1 1 = true :=
    exists_run_of_any (by decide +kernel)
  refine ⟨g', hrun, hconfig, ?_⟩
  obtain ⟨-, hmeet, -⟩ := quorums_meet groupOfThree_simple hrun ⟨"a", Or.inl rfl⟩
  obtain ⟨s, hs, hvoter, hholds⟩ := hmeet _ hmember _ hvotes _ _ _ _ hreached
  exact ⟨s, hs, of_decide_eq_true hvoter, hholds⟩

end OxideKv
