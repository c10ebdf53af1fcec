import OxideKv.Raft.MembershipChange

/-!
# Who counts towards the commit quorum

`sync_logs` keeps what a peer has confirmed under the address it dials, and
`config_quorum_reached` looks a server up under its `node_id`.  The two agree
when every server that is added has its address for a name, as the first ones
have; nothing checks it.

`acknowledged` is what the servers have confirmed, read off the replies alone.
The reply that is processed last sets the index, so a late reply to an earlier
request takes it back.  `CountsAcks` excludes both, and `commit_quorum_counts`
compares the quorum function with the servers that have confirmed an index.
-/

namespace OxideKv

open Run

/-- A server whose name is its address. -/
def ServerId.NamedByAddr (s : ServerId) : Prop := s.nodeId = s.addr

instance (s : ServerId) : Decidable s.NamedByAddr := inferInstanceAs (Decidable (_ = _))

namespace Configuration

/-- All servers are named by their addresses. -/
def NamedByAddr : Configuration → Prop
  | .simple servers => ∀ s ∈ servers, s.NamedByAddr
  | .joint old new => (∀ s ∈ old, s.NamedByAddr) ∧ ∀ s ∈ new, s.NamedByAddr

instance : (config : Configuration) → Decidable config.NamedByAddr
  | .simple servers => inferInstanceAs (Decidable (∀ s ∈ servers, s.NamedByAddr))
  | .joint old new =>
      inferInstanceAs (Decidable ((∀ s ∈ old, s.NamedByAddr) ∧ ∀ s ∈ new, s.NamedByAddr))

/-- The servers with `p` form a majority of a simple configuration, or of both
parts of a joint one. -/
def HasMajority (p : ServerId → Prop) [DecidablePred p] : Configuration → Prop
  | .simple servers => servers.length < 2 * servers.countP p
  | .joint old new => old.length < 2 * old.countP p ∧ new.length < 2 * new.countP p

instance (p : ServerId → Prop) [DecidablePred p] :
    (config : Configuration) → Decidable (config.HasMajority p)
  | .simple _ => inferInstanceAs (Decidable (_ < _))
  | .joint _ _ => inferInstanceAs (Decidable (_ ∧ _))

theorem namedByAddr_allServers {config : Configuration} (h : config.NamedByAddr) :
    ∀ s ∈ config.allServers, s.NamedByAddr := by
  cases config with
  | simple servers => exact h
  | joint old new =>
    obtain ⟨hold, hnew⟩ := h
    have hfold : ∀ (new combined : List ServerId), (∀ s ∈ combined, s.NamedByAddr) →
        (∀ s ∈ new, s.NamedByAddr) →
        ∀ s ∈ new.foldl (fun combined s =>
          if combined.any (fun x => x.nodeId == s.nodeId) then combined
          else combined ++ [s]) combined, s.NamedByAddr := by
      intro new
      induction new with
      | nil => exact fun _ hc _ => hc
      | cons t new ih =>
        intro combined hc hn
        refine ih _ ?_ fun s hs => hn s (List.mem_cons_of_mem t hs)
        dsimp only
        split_ifs
        · exact hc
        · intro s hs
          rcases List.mem_append.mp hs with hs | hs
          · exact hc s hs
          · rw [List.mem_singleton.mp hs]
            exact hn t (List.mem_cons_self ..)
    exact hfold new old hold hnew

end Configuration

/-- The highest index that the server at an address has confirmed. -/
def acknowledged (es : List NodeEvent) (addr : String) : Nat :=
  es.foldl (fun index e =>
    match e with
    | .appendReply _ peer args reply =>
        if peer = addr ∧ reply.success = true then
          max index (args.prevLogIndex + args.entries.length)
        else index
    | _ => index) 0

namespace RaftNode

/-- What a server has confirmed; a leader has its own log. -/
def acknowledgedBy (n : RaftNode) (es : List NodeEvent) (s : ServerId) : Nat :=
  if s.nodeId = n.nodeId then n.log.length else acknowledged es s.addr

/-- The servers of every configuration that a call brings are named by their
addresses, and a peer does not confirm less than before. -/
def CountsAcks (n : RaftNode) : NodeEvent → Prop
  | .propose command => command.isPlain = true
  | .proposeBatch commands => ∀ c ∈ commands, c.isPlain = true
  | .proposeAddNode server => n.AcceptsChange (.proposeAddNode server) = true → server.NamedByAddr
  | .appendEntries _ args => ∀ e ∈ args.entries, ∀ c, e.installs = some c → c.NamedByAddr
  | .appendReply _ peer args reply => reply.success = true →
      n.matchIndexFor peer ≤ args.prevLogIndex + args.entries.length
  | _ => True

instance (n : RaftNode) : (e : NodeEvent) → Decidable (n.CountsAcks e)
  | .appendEntries _ args =>
      decidable_of_iff (∀ e ∈ args.entries, ∀ c ∈ e.installs, c.NamedByAddr)
        ⟨fun h e he c hc => h e he c hc, fun h e he c hc => h e he c hc⟩
  | .propose command => inferInstanceAs (Decidable (command.isPlain = true))
  | .proposeBatch commands => inferInstanceAs (Decidable (∀ c ∈ commands, c.isPlain = true))
  | .proposeAddNode server =>
      inferInstanceAs (Decidable (n.AcceptsChange (.proposeAddNode server) = true → _))
  | .appendReply _ _ _ reply => inferInstanceAs (Decidable (reply.success = true → _))
  | .proposeRemoveNode _ | .proposeAbortTx _ | .requestVote _ _ | .preVote _ _
  | .txVoteRequest _ _ | .installSnapshot _ _ | .becomeCandidate _ | .enterPreVote _
  | .preVoteAlone _ | .preVoteStale | .preVoteQuorum _ | .voteQuorum _ _ | .voteRefused _ _
  | .coordinatorStepDown _ _ | .syncAlone _ | .maybeSnapshot _ => .isTrue trivial

/-! ## Runs -/

/-- The configurations are named by addresses, and the index map holds what
the replies have confirmed. -/
structure AckInv (es : List NodeEvent) (n : RaftNode) : Prop where
  known : Known Configuration.NamedByAddr Configuration.NamedByAddr n
  recorded : ∀ addr, n.matchIndexFor addr = acknowledged es addr

theorem CountsAcks.brings {n : RaftNode} {e : NodeEvent} (h : n.CountsAcks e)
    (hconfig : n.currentConfig.NamedByAddr) :
    Brings Configuration.NamedByAddr Configuration.NamedByAddr n e := by
  have hold := Configuration.namedByAddr_allServers hconfig
  cases e with
  | propose command => exact h
  | proposeBatch commands => exact h
  | appendEntries clock args => exact h
  | proposeAddNode server =>
    intro haccepted
    have hnew : ∀ s ∈ n.currentConfig.allServers ++ [server], s.NamedByAddr := by
      intro s hs
      rcases List.mem_append.mp hs with hs | hs
      · exact hold s hs
      · rw [List.mem_singleton.mp hs]
        exact h haccepted
    exact ⟨⟨hold, hnew⟩, hnew⟩
  | proposeRemoveNode nodeId =>
    intro _
    have hnew : ∀ s ∈ n.currentConfig.allServers.filter (fun s => s.nodeId ≠ nodeId),
        s.NamedByAddr := fun s hs => hold s (List.mem_of_mem_filter hs)
    exact ⟨⟨hold, hnew⟩, hnew⟩
  | _ => exact nofun

theorem acknowledged_append (es : List NodeEvent) (e : NodeEvent) (addr : String) :
    acknowledged (es ++ [e]) addr =
      match e with
      | .appendReply _ peer args reply =>
          if peer = addr ∧ reply.success = true then
            max (acknowledged es addr) (args.prevLogIndex + args.entries.length)
          else acknowledged es addr
      | _ => acknowledged es addr := by
  unfold acknowledged
  rw [List.foldl_append]
  rfl

theorem step_ackInv {es : List NodeEvent} {n n' : RaftNode} {e : NodeEvent} (h : AckInv es n)
    (hcounts : n.CountsAcks e) (hstep : n.step e = some n') : AckInv (es ++ [e]) n' := by
  refine ⟨step_known (fun _ h => h) h.known (hcounts.brings h.known.config) hstep, fun addr => ?_⟩
  rw [acknowledged_append, ← h.recorded addr]
  unfold matchIndexFor
  rcases step_confirms hstep with
    ⟨clock, peer, args, reply, rfl, hok, hmatch, -⟩ | ⟨hfail, hmatch, -⟩
  · rw [hmatch]
    unfold insertIndex
    by_cases hpeer : peer = addr
    · subst hpeer
      -- the reply that is processed last is the highest one
      have hle := hcounts hok
      unfold matchIndexFor at hle
      rw [if_pos rfl]
      dsimp only
      rw [if_pos ⟨rfl, hok⟩, Nat.max_eq_right hle]
      rfl
    · rw [if_neg (Ne.symm hpeer)]
      dsimp only
      rw [if_neg fun hc => hpeer hc.1]
  · rw [hmatch]
    cases e with
    | appendReply clock peer args reply =>
      have hno := hfail clock peer args reply rfl
      dsimp only
      rw [if_neg fun hc => by rw [hno] at hc; cases hc.2]
    | _ => rfl

theorem majorityReached_iff {servers : List ServerId} (hnamed : ∀ s ∈ servers, s.NamedByAddr)
    {es : List NodeEvent} {n : RaftNode}
    (hacks : ∀ addr, n.matchIndexFor addr = acknowledged es addr) (i : Nat) :
    majorityReached servers n.matchIndex n.nodeId n.log.length i = true ↔
      servers.length < 2 * servers.countP fun s => i ≤ n.acknowledgedBy es s := by
  have hcount : servers.countP (fun s =>
      decide (i ≤ replicatedIndex n.matchIndex n.nodeId n.log.length s)) =
        servers.countP fun s => decide (i ≤ n.acknowledgedBy es s) := by
    refine List.countP_congr fun s hs => ?_
    have hsame : replicatedIndex n.matchIndex n.nodeId n.log.length s =
        n.acknowledgedBy es s := by
      unfold replicatedIndex acknowledgedBy
      split_ifs
      · rfl
      · rw [← hacks, ← hnamed s hs]
        rfl
    rw [hsame]
  unfold majorityReached
  rw [hcount, decide_eq_true_iff]
  omega

/-- The quorum function holds of an index exactly when the servers that have
confirmed it form a majority. -/
theorem commit_quorum_counts {raftAddr : String} {peers : List String} {es : List NodeEvent}
    {n : RaftNode} (hcounts : Along step CountsAcks (freshNode raftAddr peers) es)
    (hrun : run step (freshNode raftAddr peers) es = some n) (i : Nat) :
    configQuorumReached n.currentConfig n.matchIndex n.nodeId n.log.length i = true ↔
      n.currentConfig.HasMajority fun s => i ≤ n.acknowledgedBy es s := by
  have hstart : AckInv [] (freshNode raftAddr peers) := by
    refine ⟨⟨?_, nofun, nofun⟩, fun _ => rfl⟩
    intro s hs
    rcases List.mem_cons.mp hs with rfl | hs
    · rfl
    · obtain ⟨addr, -, rfl⟩ := List.mem_map.mp hs
      rfl
  have hinv : AckInv es n :=
    run_history hstart (fun _ h hc hs => step_ackInv h hc hs) hcounts hrun
  have hnamed := hinv.known.config
  unfold configQuorumReached
  cases hconfig : n.currentConfig with
  | simple servers =>
    rw [hconfig] at hnamed
    exact majorityReached_iff hnamed hinv.recorded i
  | joint old new =>
    rw [hconfig] at hnamed
    rw [Bool.and_eq_true, majorityReached_iff hnamed.1 hinv.recorded i,
      majorityReached_iff hnamed.2 hinv.recorded i]
    rfl

/-- The second entry of the change that adds `server`. -/
def simpleWith (server : ServerId) : LogEntry :=
  { term := 1
    index := 2
    command := .installConfiguration (.simple (["a", "b", "c"].map serverAt ++ [server])) }

/-- The first one. -/
def jointWith (server : ServerId) : LogEntry :=
  { term := 1
    index := 1
    command := .installConfiguration (.joint (["a", "b", "c"].map serverAt)
      (["a", "b", "c"].map serverAt ++ [server])) }

/-- `a` is elected and adds a server; `b` and the new server confirm both
entries. -/
def addAndConfirm (server : ServerId) : List NodeEvent :=
  [.becomeCandidate someClock, .voteQuorum someClock 1, .proposeAddNode server,
    confirms "b" [jointWith server], confirms "b" [jointWith server, simpleWith server],
    confirms server.addr [jointWith server, simpleWith server]]

theorem commit_quorum_counts_new_server :
    ∃ n, run step (freshNode "a" ["b", "c"]) (addAndConfirm (serverAt "d")) = some n ∧
      n.currentConfig = .simple (["a", "b", "c", "d"].map serverAt) ∧
      configQuorumReached n.currentConfig n.matchIndex n.nodeId n.log.length 2 = true ∧
      n.currentConfig.HasMajority fun s =>
        2 ≤ n.acknowledgedBy (addAndConfirm (serverAt "d")) s := by
  obtain ⟨n, hrun, hconfig, hreached⟩ : ∃ n, run step (freshNode "a" ["b", "c"])
      (addAndConfirm (serverAt "d")) = some n ∧
      n.currentConfig = .simple (["a", "b", "c", "d"].map serverAt) ∧
      configQuorumReached n.currentConfig n.matchIndex n.nodeId n.log.length 2 = true :=
    exists_run_of_any (by decide +kernel)
  have hcounts : Along step CountsAcks (freshNode "a" ["b", "c"])
      (addAndConfirm (serverAt "d")) := by decide +kernel
  exact ⟨n, hrun, hconfig, hreached, (commit_quorum_counts hcounts hrun 2).mp hreached⟩

/-- A server under a name of its own. -/
def namedServer : ServerId := { nodeId := "d", addr := "10.0.0.4:9000" }

theorem named_server_not_counted :
    ∃ n, run step (freshNode "a" ["b", "c"]) (addAndConfirm namedServer) = some n ∧
      n.state = .leader ∧ "10.0.0.4:9000" ∈ n.peers ∧
      configQuorumReached n.currentConfig n.matchIndex n.nodeId n.log.length 2 = false ∧
      n.currentConfig.HasMajority fun s => 2 ≤ n.acknowledgedBy (addAndConfirm namedServer) s :=
  exists_run_of_any (by decide +kernel)

end RaftNode

end OxideKv
