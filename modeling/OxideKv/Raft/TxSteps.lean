import OxideKv.Raft.Applying

/-!
# Steps of a cluster with transactions

What a step of `TxCluster` does to one node (`step_node`) and to one call
(`step_call`), and two things that hold of every node in every run: its store
is sound, and while it leads its log only grows.
-/

namespace OxideKv

open RaftNode StateMachine

/-! ## The critical sections of a call -/

namespace TxPhase

/-- The call is in a polling loop. -/
def polls : TxPhase → Bool
  | .waitBatch _ _ | .waitBegin _ _ | .waitReplication _ _ | .waitDecide _ _ _ _ _ => true
  | _ => false

/-- The polling loop goes on. -/
def again : TxPhase → TxPhase
  | .waitBatch i _ => .waitBatch i true
  | .waitBegin i _ => .waitBegin i true
  | .waitReplication i _ => .waitReplication i true
  | .waitDecide round decision abortReason i _ => .waitDecide round decision abortReason i true
  | phase => phase

end TxPhase

/-- The node leads and has applied the entry at `index`. -/
structure RaftNode.AppliedTo (n : RaftNode) (index : Nat) : Prop where
  leader : n.state = .leader
  commit : index ≤ n.commitIndex
  applied : index ≤ n.lastApplied

theorem RaftNode.pollApply_ready {n : RaftNode} {what : String} {index : Nat} {expired : Bool}
    (h : n.pollApply what index expired = .ready) : n.AppliedTo index := by
  unfold pollApply at h
  split_ifs at h with hs happlied
  exact ⟨not_not.mp hs, happlied.1, happlied.2⟩

theorem RaftNode.pollReplication_ready {n : RaftNode} {index : Nat} {expired : Bool}
    (h : n.pollReplication index expired = .ready) :
    n.state = .leader ∧ ∀ q ∈ n.peers, index ≤ n.matchIndexFor q := by
  unfold pollReplication at h
  split_ifs at h with hs hall
  exact ⟨not_not.mp hs, by simpa using hall⟩

namespace TxCall

/-- Everything a call can do when it gets the lock. -/
inductive Turns (c : TxCall) (n : RaftNode) : TxTurn → Prop where
  | batch (h : c.phase = .proposeBatch) :
      Turns c n (.ofPropose n
        (n.proposeBatch [.beginTx c.txId c.ops, .decideTx c.txId .commit]) c.txId
        fun n' => .waitBatch (n'.log.length - 2 + 1) false)
  | batchApplied {i : Nat} {polled : Bool} (h : c.phase = .waitBatch i polled) :
      Turns c n { node := n, phase := .done (.committed i (i + 1) c.txId) }
  | begins (h : c.phase = .proposeBegin) :
      Turns c n (.ofPropose n (n.propose (.beginTx c.txId c.ops)) c.txId
        fun n' => .waitBegin n'.log.length false)
  | begun {i : Nat} {polled : Bool} (h : c.phase = .waitBegin i polled) (happlied : n.AppliedTo i) :
      Turns c n { node := n, phase := .waitReplication i false }
  | unreplicated {i : Nat} {polled : Bool} {reason : String}
      (h : c.phase = .waitReplication i polled) :
      Turns c n { node := n, phase := .done (.aborted c.txId reason) }
  | replicated {i : Nat} {polled : Bool} (h : c.phase = .waitReplication i polled)
      (hs : n.state = .leader) (hall : ∀ q ∈ n.peers, i ≤ n.matchIndexFor q) :
      Turns c n { node := n, phase := .readRound i }
  | reads {i : Nat} (h : c.phase = .readRound i) :
      Turns c n { node := n, phase := .recordOwn (n.txRound i) }
  | asks {round : TxRound} (h : c.phase = .recordOwn round) :
      Turns c n
        { node := n.recordYes c.txId round.leaderId
          phase := round.collected []
          round := some round }
  | stepsDown {round : TxRound} {addr : String} {resp : VoteResponse} {rest : List VoteResult}
      {yesVoters : List String} {abortReason : Option String}
      (h : c.phase = .tally round ((addr, .ok resp) :: rest) yesVoters abortReason)
      (hlt : round.leaderTerm < resp.term) :
      Turns c n
        { node := n.coordinatorStepDown round.leaderTerm resp
          phase := .done (.notLeader c.txId) }
  | counts {round : TxRound} {addr : String} {resp : VoteResponse} {rest : List VoteResult}
      {yesVoters : List String} {abortReason : Option String}
      (h : c.phase = .tally round ((addr, .ok resp) :: rest) yesVoters abortReason) :
      Turns c n
        { node := n.recordYes c.txId addr
          phase := .tally round rest (yesVoters ++ [addr]) abortReason }
  | refuses {round : TxRound} {result : VoteResult} {rest : List VoteResult}
      {yesVoters : List String} {abortReason : Option String} {reason : String}
      (h : c.phase = .tally round (result :: rest) yesVoters abortReason) :
      Turns c n { node := n, phase := .tally round rest yesVoters (some reason) }
  | decides {round : TxRound} {yesVoters : List String} {abortReason : Option String}
      (h : c.phase = .tally round [] yesVoters abortReason) :
      Turns c n (.ofPropose n
        (n.propose (.decideTx c.txId (round.decision yesVoters abortReason))) c.txId
        fun n' =>
          .waitDecide round (round.decision yesVoters abortReason) abortReason n'.log.length false)
  | decided {round : TxRound} {decision : TxDecision} {abortReason : Option String} {i : Nat}
      {polled : Bool} (h : c.phase = .waitDecide round decision abortReason i polled)
      (happlied : n.AppliedTo i) :
      Turns c n { node := n, phase := .done (round.outcome c.txId abortReason i decision) }
  | gaveUp (h : c.phase.polls = true) :
      Turns c n { node := n, phase := .done (.notLeader c.txId) }
  | waits (h : c.phase.polls = true) : Turns c n { node := n, phase := c.phase.again }

theorem resume_turns {expired : Bool} {n : RaftNode} {c : TxCall} {turn : TxTurn}
    (h : c.resume expired n = some turn) : Turns c n turn := by
  have hwaits : ∀ {phase : TxPhase}, c.phase = phase → phase.polls = true →
      Turns c n { node := n, phase := phase.again } := by
    rintro _ rfl hpolls
    exact .waits hpolls
  unfold resume at h
  split at h
  · rename_i hphase
    obtain rfl := Option.some.inj h
    exact .batch hphase
  · rename_i i polled hphase
    obtain rfl := Option.some.inj h
    unfold TxTurn.ofPoll
    split
    · exact .batchApplied hphase
    · exact .gaveUp (by rw [hphase]; rfl)
    · exact hwaits hphase rfl
  · rename_i hphase
    obtain rfl := Option.some.inj h
    exact .begins hphase
  · rename_i i polled hphase
    obtain rfl := Option.some.inj h
    unfold TxTurn.ofPoll
    split
    · rename_i hready
      exact .begun hphase (pollApply_ready hready)
    · exact .gaveUp (by rw [hphase]; rfl)
    · exact hwaits hphase rfl
  · rename_i i polled hphase
    obtain rfl := Option.some.inj h
    unfold TxTurn.ofPoll
    split
    · rename_i hready
      obtain ⟨hs, hall⟩ := pollReplication_ready hready
      exact .replicated hphase hs hall
    · exact .unreplicated hphase
    · exact hwaits hphase rfl
  · rename_i i hphase
    obtain rfl := Option.some.inj h
    exact .reads hphase
  · rename_i round hphase
    obtain rfl := Option.some.inj h
    exact .asks hphase
  · rename_i hphase
    split_ifs at h with hlt <;> obtain rfl := Option.some.inj h
    · exact .stepsDown hphase hlt
    · exact .counts hphase
    · exact .refuses hphase
  · rename_i hphase
    obtain rfl := Option.some.inj h
    exact .refuses hphase
  · rename_i hphase
    obtain rfl := Option.some.inj h
    exact .decides hphase
  · rename_i hphase
    obtain rfl := Option.some.inj h
    unfold TxTurn.ofPoll
    split
    · rename_i hready
      exact .decided hphase (pollApply_ready hready)
    · exact .gaveUp (by rw [hphase]; rfl)
    · exact hwaits hphase rfl
  · cases h
  · cases h
  · cases h

end TxCall

/-- A critical section of a call changes its node as an event does, records a
vote, or leaves it alone. -/
inductive TxCall.Acts (n : RaftNode) : RaftNode → Prop where
  | rests : Acts n n
  | step {n' : RaftNode} (e : NodeEvent) (he : e.isSnapshot = false) (h : n.step e = some n') :
      Acts n n'
  | records (txId voter : String) : Acts n (n.recordYes txId voter)

theorem TxCall.Turns.acts {n : RaftNode} {c : TxCall} {turn : TxTurn} (h : c.Turns n turn) :
    Acts n turn.node := by
  cases h with
  | batch => exact .step (.proposeBatch _) rfl rfl
  | begins => exact .step (.propose _) rfl rfl
  | decides => exact .step (.propose _) rfl rfl
  | stepsDown => exact .step (.coordinatorStepDown _ _) rfl rfl
  | asks | counts => exact .records _ _
  | batchApplied | begun | unreplicated | replicated | reads | refuses | decided | gaveUp
  | waits => exact .rests

theorem TxCall.Acts.consumes {n n' : RaftNode} (h : Acts n n') : Consumes n n' := by
  cases h with
  | rests => exact .refl n
  | step e he h => exact step_consumes he h
  | records txId voter => exact recordYes_consumes txId voter n

theorem TxCall.Acts.leader {n n' : RaftNode} (h : Acts n n') (hs : n.state = .leader)
    (hs' : n'.state = .leader) : n.log <+: n'.log := by
  cases h with
  | rests => exact List.prefix_rfl
  | step e he h => exact (step_leader h hs hs').2
  | records txId voter => exact List.prefix_rfl

/-- No call of the cluster takes or installs a snapshot. -/
theorem Cluster.nodeEvent_isSnapshot {s : Cluster} {e : Event} {x : String × NodeEvent}
    (h : s.nodeEvent e = some x) : x.2.isSnapshot = false := by
  cases e with
  | becomeCandidate | propose | proposeBatch | proposeAbortTx =>
    obtain rfl := Option.some.inj h
    rfl
  | resume k clock =>
    obtain ⟨c, -, hc⟩ := Option.bind_eq_some_iff.mp h
    obtain ⟨ne, hne, rfl⟩ := Option.map_eq_some_iff.mp hc
    cases hcall : c.2 <;> rw [hcall] at hne <;> cases hne <;> rfl
  | deliver i clock =>
    obtain ⟨rpc, -, rfl⟩ := Option.map_eq_some_iff.mp h
    show (rpc.request.nodeEvent clock).isSnapshot = false
    cases rpc.request <;> rfl
  | receive j clock =>
    obtain ⟨r, -, hr⟩ := Option.bind_eq_some_iff.mp h
    obtain ⟨rpc, -, hrpc⟩ := Option.bind_eq_some_iff.mp hr
    obtain ⟨ne, hne, rfl⟩ := Option.map_eq_some_iff.mp hrpc
    rcases processEvent_cases hne with ⟨term, r', rfl⟩ | rfl | ⟨args, r', rfl, -, -⟩ <;> rfl
  | becomePreCandidate | leaderCheck | restart => cases h

namespace TxCluster

variable {m : Membership} {s s' : TxCluster} {e : TxEvent}

/-! ## The nodes -/

@[simp] theorem finish_nodes (k : Nat) (c : TxCall) (turn : TxTurn) (s : TxCluster) :
    (finish k c turn s).base.nodes = Function.update s.base.nodes c.node turn.node := rfl

/-- What a step does to one node. -/
theorem step_node (h : s.step m e = some s') (p : String) :
    TxCall.Acts (s.base.nodes p) (s'.base.nodes p) ∨
      ∃ clock, e = .base (.restart p clock) ∧
        Cluster.startup m p clock (s.base.nodes p) = some (s'.base.nodes p) := by
  have hupdate : ∀ {q : String} {n' : RaftNode}, TxCall.Acts (s.base.nodes q) n' →
      TxCall.Acts (s.base.nodes p) (Function.update s.base.nodes q n' p) := by
    intro q n' hacts
    by_cases hpq : p = q
    · subst hpq
      rw [Function.update_self]
      exact hacts
    · rw [Function.update_of_ne hpq]
      exact .rests
  cases e with
  | base e =>
    obtain ⟨t, ht, rfl⟩ := Option.map_eq_some_iff.mp h
    rcases Cluster.step_node ht p with hsame | ⟨ne, hne, hstep⟩ | ⟨clock, rfl, hstart⟩
    · left
      show TxCall.Acts (s.base.nodes p) (t.nodes p)
      rw [hsame]
      exact .rests
    · exact Or.inl (.step ne (Cluster.nodeEvent_isSnapshot hne) hstep)
    · exact Or.inr ⟨clock, rfl, hstart⟩
  | coordinateTx q txId ops =>
    simp only [step] at h
    split_ifs at h
    obtain rfl := Option.some.inj h
    exact Or.inl .rests
  | resume k expired =>
    obtain ⟨c, -, hc⟩ := Option.bind_eq_some_iff.mp h
    obtain ⟨turn, hturn, rfl⟩ := Option.map_eq_some_iff.mp hc
    exact Or.inl (hupdate (TxCall.resume_turns hturn).acts)
  | vote k j =>
    obtain ⟨c, -, h⟩ := Option.bind_eq_some_iff.mp h
    obtain ⟨r, -, h⟩ := Option.bind_eq_some_iff.mp h
    obtain ⟨rpc, -, h⟩ := Option.bind_eq_some_iff.mp h
    split at h
    · split_ifs at h
      obtain rfl := Option.some.inj h
      exact Or.inl .rests
    · cases h
  | voteFailed k failure =>
    obtain ⟨c, -, h⟩ := Option.bind_eq_some_iff.mp h
    split at h
    · obtain ⟨addr, -, rfl⟩ := Option.map_eq_some_iff.mp h
      exact Or.inl .rests
    · cases h
  | cancel k =>
    obtain ⟨c, -, h⟩ := Option.bind_eq_some_iff.mp h
    split_ifs at h
    obtain rfl := Option.some.inj h
    exact Or.inl .rests
  | deliver i clock =>
    obtain ⟨rpc, -, rfl⟩ := Option.map_eq_some_iff.mp h
    exact Or.inl (hupdate (.step (.txVoteRequest clock rpc.req) rfl rfl))

/-- The log of a leader that stays leader grows, and the leader applies it in
order. -/
theorem step_leads (h : s.step m e = some s') {p : String}
    (hs : (s.base.nodes p).state = .leader) (hs' : (s'.base.nodes p).state = .leader) :
    (s.base.nodes p).log <+: (s'.base.nodes p).log ∧
      Consumes (s.base.nodes p) (s'.base.nodes p) := by
  rcases step_node h p with hacts | ⟨clock, -, hstart⟩
  · exact ⟨hacts.leader hs hs', hacts.consumes⟩
  · rw [Cluster.startup_follower hstart] at hs'
    cases hs'

/-! ## The calls -/

/-- What a step does to the call `c` at position `k`. -/
inductive CallStep (s : TxCluster) (k : Nat) (c : TxCall) : TxEvent → TxCluster → Prop where
  | idle {e : TxEvent} {s' : TxCluster} (he : ∀ expired, e ≠ .resume k expired)
      (hk : s'.calls[k]? = some c) : CallStep s k c e s'
  | turn {expired : Bool} {turn : TxTurn} (h : c.Turns (s.base.nodes c.node) turn) :
      CallStep s k c (.resume k expired) (s.finish k c turn)
  | collects {e : TxEvent} {s' : TxCluster} {round : TxRound} {results : List VoteResult}
      {result : VoteResult} (he : ∀ expired, e ≠ .resume k expired) (hbase : s'.base = s.base)
      (hphase : c.phase = .collect round results)
      (hk : s'.calls[k]? = some { c with phase := round.collected (results ++ [result]) }) :
      CallStep s k c e s'
  | cancelled {s' : TxCluster} {reason : String} (hbase : s'.base = s.base)
      (hawaits : c.phase.awaits = true)
      (hk : s'.calls[k]? = some { c with phase := .done (.aborted c.txId reason) }) :
      CallStep s k c (.cancel k) s'
  | crashed {clock : Clock} {s' : TxCluster} (hk : s'.calls[k]? = some { c with phase := .gone }) :
      CallStep s k c (.base (.restart c.node clock)) s'

theorem step_call {k : Nat} {c : TxCall} (h : s.step m e = some s') (hk : s.calls[k]? = some c) :
    CallStep s k c e s' := by
  have hlt : k < s.calls.length := (List.getElem?_eq_some_iff.mp hk).1
  cases e with
  | base e =>
    obtain ⟨t, ht, rfl⟩ := Option.map_eq_some_iff.mp h
    cases e with
    | restart p clock =>
      have hmap : (dropCalls (.restart p clock) s.calls)[k]? =
          some (if c.node = p then { c with phase := .gone } else c) := by
        simp only [dropCalls, List.getElem?_map, hk, Option.map_some]
      by_cases hp : c.node = p
      · subst hp
        rw [if_pos rfl] at hmap
        exact .crashed hmap
      · rw [if_neg hp] at hmap
        exact .idle nofun hmap
    | _ => exact .idle nofun hk
  | coordinateTx p txId ops =>
    simp only [step] at h
    split_ifs at h
    obtain rfl := Option.some.inj h
    exact .idle nofun ((List.getElem?_append_left hlt).trans hk)
  | resume k' expired =>
    obtain ⟨c', hk', hc⟩ := Option.bind_eq_some_iff.mp h
    obtain ⟨turn, hturn, rfl⟩ := Option.map_eq_some_iff.mp hc
    by_cases hkk : k' = k
    · subst hkk
      obtain rfl : c = c' := Option.some.inj (hk.symm.trans hk')
      exact .turn (TxCall.resume_turns hturn)
    · refine .idle (fun _ he => hkk (TxEvent.resume.inj he).1) ?_
      exact (List.getElem?_set_ne hkk).trans hk
  | vote k' j =>
    obtain ⟨c', hk', h⟩ := Option.bind_eq_some_iff.mp h
    obtain ⟨r, -, h⟩ := Option.bind_eq_some_iff.mp h
    obtain ⟨rpc, -, h⟩ := Option.bind_eq_some_iff.mp h
    split at h
    · rename_i round results hphase
      split_ifs at h
      obtain rfl := Option.some.inj h
      by_cases hkk : k' = k
      · subst hkk
        obtain rfl : c = c' := Option.some.inj (hk.symm.trans hk')
        exact .collects nofun rfl hphase (List.getElem?_set_self hlt)
      · exact .idle nofun ((List.getElem?_set_ne hkk).trans hk)
    · cases h
  | voteFailed k' failure =>
    obtain ⟨c', hk', h⟩ := Option.bind_eq_some_iff.mp h
    split at h
    · rename_i round results hphase
      obtain ⟨addr, -, rfl⟩ := Option.map_eq_some_iff.mp h
      by_cases hkk : k' = k
      · subst hkk
        obtain rfl : c = c' := Option.some.inj (hk.symm.trans hk')
        exact .collects nofun rfl hphase (List.getElem?_set_self hlt)
      · exact .idle nofun ((List.getElem?_set_ne hkk).trans hk)
    · cases h
  | cancel k' =>
    obtain ⟨c', hk', h⟩ := Option.bind_eq_some_iff.mp h
    split_ifs at h with hawaits
    obtain rfl := Option.some.inj h
    by_cases hkk : k' = k
    · subst hkk
      obtain rfl : c = c' := Option.some.inj (hk.symm.trans hk')
      exact .cancelled rfl hawaits (List.getElem?_set_self hlt)
    · exact .idle nofun ((List.getElem?_set_ne hkk).trans hk)
  | deliver i clock =>
    obtain ⟨rpc, -, rfl⟩ := Option.map_eq_some_iff.mp h
    exact .idle nofun hk

/-- A call that was not there before has just begun. -/
theorem step_new_call {k : Nat} {c : TxCall} (h : s.step m e = some s')
    (hk : s'.calls[k]? = some c) (hge : s.calls.length ≤ k) :
    ∃ p txId ops, e = .coordinateTx p txId ops ∧ c = .begin p txId ops (s.base.nodes p) := by
  have hlt : k < s'.calls.length := (List.getElem?_eq_some_iff.mp hk).1
  have hsame : s'.calls.length = s.calls.length → False := by omega
  cases e with
  | base e =>
    obtain ⟨t, -, rfl⟩ := Option.map_eq_some_iff.mp h
    refine (hsame ?_).elim
    cases e <;> simp [dropCalls]
  | coordinateTx p txId ops =>
    simp only [step] at h
    split_ifs at h
    obtain rfl := Option.some.inj h
    dsimp only at hk hlt
    rw [List.length_append, List.length_singleton] at hlt
    obtain rfl : k = s.calls.length := by omega
    rw [List.getElem?_concat_length] at hk
    exact ⟨p, txId, ops, rfl, (Option.some.inj hk).symm⟩
  | resume k' expired =>
    obtain ⟨c', -, hc⟩ := Option.bind_eq_some_iff.mp h
    obtain ⟨turn, -, rfl⟩ := Option.map_eq_some_iff.mp hc
    exact (hsame (List.length_set ..)).elim
  | vote k' j =>
    obtain ⟨c', -, h⟩ := Option.bind_eq_some_iff.mp h
    obtain ⟨r, -, h⟩ := Option.bind_eq_some_iff.mp h
    obtain ⟨rpc, -, h⟩ := Option.bind_eq_some_iff.mp h
    split at h
    · split_ifs at h
      obtain rfl := Option.some.inj h
      exact (hsame (List.length_set ..)).elim
    · cases h
  | voteFailed k' failure =>
    obtain ⟨c', -, h⟩ := Option.bind_eq_some_iff.mp h
    split at h
    · obtain ⟨addr, -, rfl⟩ := Option.map_eq_some_iff.mp h
      exact (hsame (List.length_set ..)).elim
    · cases h
  | cancel k' =>
    obtain ⟨c', -, h⟩ := Option.bind_eq_some_iff.mp h
    split_ifs at h
    obtain rfl := Option.some.inj h
    exact (hsame (List.length_set ..)).elim
  | deliver i clock =>
    obtain ⟨rpc, -, rfl⟩ := Option.map_eq_some_iff.mp h
    exact (hsame rfl).elim

theorem finish_call {k : Nat} {c : TxCall} (hk : s.calls[k]? = some c) (turn : TxTurn) :
    (s.finish k c turn).calls[k]? =
      some { c with phase := turn.phase, proposed := c.proposed ++ turn.proposed } :=
  List.getElem?_set_self (List.getElem?_eq_some_iff.mp hk).1

/-! ## The stores -/

end TxCluster

/-- No file operation has failed on the store, and there is no snapshot. -/
structure RaftNode.StoreSound (n : RaftNode) : Prop where
  layout : Layout n.stateMachine
  durable : Durable n.stateMachine
  snapshot : n.storage.snapshot = none

theorem RaftNode.Consumes.storeSound {n n' : RaftNode} (h : Consumes n n') (hn : n.StoreSound) :
    n'.StoreSound := by
  have happ := h.store hn.layout
  exact ⟨happ.writes.layout, happ.writes.durable hn.durable, h.snapshot.trans hn.snapshot⟩

theorem startup_storeSound {m : Membership} {p : String} {clock : Clock} {n r : RaftNode}
    (h : Cluster.startup m p clock n = some r) (hn : n.StoreSound) : r.StoreSound := by
  obtain ⟨sm, hopen, hwrites, -⟩ :=
    openStore_ok hn.layout hn.durable n.stateMachine.memtableSizeThreshold
  unfold Cluster.startup at h
  rw [hopen] at h
  obtain ⟨n₁, hrestore, rfl⟩ := Option.map_eq_some_iff.mp h
  obtain rfl := (restoreFromSnapshot_eq hrestore).1 hn.snapshot
  have happ := @replayLogs_ok clock (RaftNode.new p (m.peers p) sm n.storage clock) hwrites.layout
  obtain ⟨sm', config, peers, heq⟩ :=
    replayLogs_eq clock (RaftNode.new p (m.peers p) sm n.storage clock)
  refine ⟨happ.writes.layout, happ.writes.durable (hwrites.durable hn.durable), ?_⟩
  rw [heq]
  exact hn.snapshot

namespace TxCluster

variable {m : Membership} {s s' : TxCluster} {e : TxEvent}

theorem start_storeSound (m : Membership) (p : String) :
    ((start m).base.nodes p).StoreSound := by
  obtain ⟨hlayout, hdurable, -, -⟩ := freshStore_ok
  exact ⟨hlayout, hdurable, rfl⟩

theorem step_storeSound (h : s.step m e = some s') (hs : ∀ p, (s.base.nodes p).StoreSound)
    (p : String) : (s'.base.nodes p).StoreSound := by
  rcases step_node h p with hacts | ⟨clock, -, hstart⟩
  · exact hacts.consumes.storeSound (hs p)
  · exact startup_storeSound hstart (hs p)

theorem run_storeSound {es : List TxEvent} (h : Run.run (step m) (start m) es = some s)
    (p : String) : (s.base.nodes p).StoreSound := by
  have halong : Run.Along (step m) (fun _ _ => True) (start m) es := 
    Run.along_of_forall (fun _ _ => trivial) es _
  exact Run.run_invariant (I := fun s => ∀ p, (s.base.nodes p).StoreSound)
    (fun hs _ h => step_storeSound h hs) (start_storeSound m) halong h p

end TxCluster

end OxideKv
