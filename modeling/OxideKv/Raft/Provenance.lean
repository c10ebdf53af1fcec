import OxideKv.Raft.Roles
import OxideKv.Raft.Tasks

/-!
# Who sends `AppendEntries`

The tasks of one node: a call or an incoming RPC that holds the lock, a caller
of `sync_logs` that sees that the node leads, and the reads of `sync_logs`
that follow, in any order.  Callers of `sync_logs` are the heartbeat loop,
`begin_read`, and the client handlers and the coordinator after a proposal
that was accepted: each of them has seen, under the lock, that the node leads.
What peers send is arbitrary.

`sync_logs` does not look at the role of the node.  It reads the term first
and then, for each peer, the log, so a node that steps down in between sends
its log under a term that it never led.  `SendsAsLeader` says that this does
not happen, and `appendEntries_provenance` that it is all that can go wrong.
-/

namespace OxideKv

open Run RaftNode

/-- A node, the calls of `sync_logs` that wait for its lock and the
`AppendEntries` it has sent. -/
structure Tasks where
  node : RaftNode
  calls : List Call
  sent : List (String × AppendEntriesArgs)

inductive TaskEvent where
  /-- A call, or an incoming RPC. -/
  | call (e : NodeEvent)
  /-- A caller of `sync_logs` looks at the role of the node. -/
  | leaderCheck
  /-- The call at position `k` gets the lock. -/
  | resume (k : Nat) (clock : Clock)

namespace Tasks

def step (s : Tasks) : TaskEvent → Option Tasks
  | .call e => (s.node.step e).map fun n => { s with node := n }
  | .leaderCheck =>
      some (if s.node.state = .leader then { s with calls := s.calls ++ [.syncLogs] } else s)
  | .resume k clock =>
      (s.calls[k]?).map fun c =>
        let o := c.resume clock s.node
        { node := o.node, calls := s.calls.eraseIdx k ++ o.next, sent := s.sent ++ o.sent }

/-- The first start of a node. -/
def start (raftAddr : String) (peers : List String) : Tasks :=
  { node := freshNode raftAddr peers, calls := [], sent := [] }

/-- A read of `sync_logs` for a peer finds the node still leader of the term
that the call has read. -/
def SendsAsLeader (s : Tasks) : TaskEvent → Bool
  | .resume k _ =>
      match s.calls[k]? with
      | some (.syncPeers round (_ :: _)) =>
          decide (s.node.state = .leader ∧ s.node.currentTerm = round.currentTerm)
      | _ => true
  | _ => true

/-- One of the steps made the node leader of `term`. -/
def WasElected (s : Tasks) (es : List TaskEvent) (term : Nat) : Prop :=
  ∃ es₁ e es₂ t t', es = es₁ ++ e :: es₂ ∧ run step s es₁ = some t ∧ t.step e = some t' ∧
    t.node.state ≠ .leader ∧ t'.node.state = .leader ∧ t'.node.currentTerm = term

theorem WasElected.append {s : Tasks} {es : List TaskEvent} {term : Nat}
    (h : WasElected s es term) (fs : List TaskEvent) : WasElected s (es ++ fs) term := by
  obtain ⟨es₁, e, es₂, t, t', rfl, h⟩ := h
  exact ⟨es₁, e, es₂ ++ fs, t, t', by simp, h⟩

/-- The message is what `t`, as leader of its term, has to say. -/
structure SpeaksFor (t : Tasks) (args : AppendEntriesArgs) : Prop where
  leader : t.node.state = .leader
  term : t.node.currentTerm = args.term
  leaderId : t.node.nodeId = args.leaderId
  entries : args.entries = t.node.log.drop args.prevLogIndex ∨ args.entries = []
  prev : args.prevLogIndex = 0 ∨
    args.prevLogTerm = ((t.node.log[args.prevLogIndex - 1]?).map LogEntry.term).getD 0

/-- What a run has brought about. -/
structure History (s : Tasks) (es : List TaskEvent) (t : Tasks) : Prop where
  nodeId : t.node.nodeId = s.node.nodeId
  elected : t.node.state = .leader → WasElected s es t.node.currentTerm
  round : ∀ round rest, .syncPeers round rest ∈ t.calls → round.nodeId = s.node.nodeId
  sent : ∀ m ∈ t.sent, ∃ es₁ es₂ u, es = es₁ ++ es₂ ∧ run step s es₁ = some u ∧
    SpeaksFor u m.2 ∧ WasElected s es₁ m.2.term

theorem start_history (raftAddr : String) (peers : List String) :
    History (start raftAddr peers) [] (start raftAddr peers) :=
  ⟨rfl, fun h => (by cases h), fun _ _ h => (by cases h), fun _ h => (by cases h)⟩

/-- The read for a peer, made while the node leads the term of the round. -/
theorem syncPeer_speaksFor {t : Tasks} {round : SyncRound} {peer : String}
    {args : AppendEntriesArgs} (h : t.node.syncPeer round peer = some args)
    (hid : round.nodeId = t.node.nodeId) (hlead : t.node.state = .leader)
    (hterm : t.node.currentTerm = round.currentTerm) : SpeaksFor t args := by
  obtain ⟨hargs, hleader, -, -, hprev, hentries⟩ := syncPeer_cases h
  refine ⟨hlead, hterm.trans hargs.symm, hid.symm.trans hleader.symm, ?_, hprev⟩
  rcases hentries with ⟨-, -, hdrop⟩ | ⟨-, hnil⟩
  · exact Or.inl hdrop
  · exact Or.inr hnil

theorem History.sent_append {s t : Tasks} {es : List TaskEvent} (h : History s es t)
    (fs : List TaskEvent) : ∀ m ∈ t.sent, ∃ es₁ es₂ u, es ++ fs = es₁ ++ es₂ ∧
      run step s es₁ = some u ∧ SpeaksFor u m.2 ∧ WasElected s es₁ m.2.term := by
  intro m hm
  obtain ⟨es₁, es₂, u, rfl, hu⟩ := h.sent m hm
  exact ⟨es₁, es₂ ++ fs, u, List.append_assoc _ _ _, hu⟩

/-- A leader after a call of the node. -/
theorem elected_of_step {s t t' : Tasks} {es : List TaskEvent} {e : TaskEvent}
    (hrun : run step s es = some t) (h : History s es t) (hstep : t.step e = some t')
    (hnode : t'.node = t.node ∨ ∃ e', t.node.step e' = some t'.node)
    (hlead : t'.node.state = .leader) : WasElected s (es ++ [e]) t'.node.currentTerm := by
  by_cases hold : t.node.state = .leader
  · have hterm : t'.node.currentTerm = t.node.currentTerm := by
      rcases hnode with heq | ⟨e', he'⟩
      · rw [heq]
      · exact (step_leader he' hold hlead).1
    rw [hterm]
    exact (h.elected hold).append [e]
  · exact ⟨es, e, [], t, t', rfl, hrun, hstep, hold, hlead, rfl⟩

/-- A call of `sync_logs` that gets the lock. -/
theorem resume_history {s t : Tasks} {es : List TaskEvent} {k : Nat} {clock : Clock} {c : Call}
    (hrun : run step s es = some t) (h : History s es t) (hc : t.calls[k]? = some c)
    (hsends : t.SendsAsLeader (.resume k clock) = true) :
    History s (es ++ [.resume k clock])
      { node := (c.resume clock t.node).node
        calls := t.calls.eraseIdx k ++ (c.resume clock t.node).next
        sent := t.sent ++ (c.resume clock t.node).sent } := by
  have hstep : t.step (.resume k clock) = some
      { node := (c.resume clock t.node).node
        calls := t.calls.eraseIdx k ++ (c.resume clock t.node).next
        sent := t.sent ++ (c.resume clock t.node).sent } := by
    simp [step, hc]
  have hnode : (c.resume clock t.node).node = t.node ∨
      ∃ e, t.node.step e = some (c.resume clock t.node).node := by
    rcases c.resume_node clock t.node with ⟨-, heq⟩ | ⟨e, -, heq⟩
    · exact Or.inl heq
    · exact Or.inr ⟨e, heq⟩
  have hid : (c.resume clock t.node).node.nodeId = t.node.nodeId := by
    rcases hnode with heq | ⟨e, he⟩
    · rw [heq]
    · exact step_nodeId he
  have hmem : c ∈ t.calls := List.mem_of_getElem? hc
  refine ⟨hid.trans h.nodeId, elected_of_step hrun h hstep hnode, ?_, ?_⟩
  · intro round rest hin
    rcases List.mem_append.mp hin with hin | hin
    · exact h.round round rest (List.mem_of_mem_eraseIdx hin)
    · -- the rounds of the calls that go on
      cases c with
      | syncLogs =>
        simp only [Call.resume] at hin
        split_ifs at hin with hempty
        · simp at hin
        · obtain ⟨rfl, -⟩ : round = t.node.syncRound ∧ rest = t.node.syncRound.peers := by
            simpa using hin
          exact h.nodeId
      | syncPeers round' rest' =>
        cases rest' with
        | nil => simp [Call.resume] at hin
        | cons peer rest' =>
          simp only [Call.resume] at hin
          cases hs : t.node.syncPeer round' peer with
          | none => simp [hs] at hin
          | some args =>
            obtain ⟨rfl, -⟩ : round = round' ∧ rest = rest' := by simpa [hs] using hin
            exact h.round round (peer :: rest') hmem
      | enterPreVote round' =>
        simp only [Call.resume] at hin
        split at hin
        · simp at hin
        · split_ifs at hin <;> simp at hin
      | preVoteQuorum =>
        simp only [Call.resume] at hin
        split at hin <;> simp at hin
      | requestVotes =>
        simp only [Call.resume] at hin
        split_ifs at hin <;> simp at hin
      | voteQuorum | preVoteAlone | syncAlone => simp [Call.resume] at hin
  · intro m hm
    rcases List.mem_append.mp hm with hm | hm
    · exact h.sent_append _ m hm
    · cases c with
      | syncPeers round rest =>
        cases rest with
        | nil => simp [Call.resume] at hm
        | cons peer rest =>
          obtain ⟨hlead, hterm⟩ : t.node.state = .leader ∧
              t.node.currentTerm = round.currentTerm := by
            simpa [SendsAsLeader, hc] using hsends
          simp only [Call.resume] at hm
          cases hs : t.node.syncPeer round peer with
          | none => simp [hs] at hm
          | some args =>
            obtain rfl : m = (peer, args) := by simpa [hs] using hm
            have hid := (h.round round (peer :: rest) hmem).trans h.nodeId.symm
            have hspeaks := syncPeer_speaksFor hs hid hlead hterm
            exact ⟨es, _, t, rfl, hrun, hspeaks, hspeaks.term ▸ h.elected hlead⟩
      | enterPreVote round =>
        simp only [Call.resume] at hm
        split at hm
        · simp at hm
        · split_ifs at hm <;> simp at hm
      | preVoteQuorum =>
        simp only [Call.resume] at hm
        split at hm <;> simp at hm
      | requestVotes | voteQuorum | preVoteAlone | syncLogs | syncAlone =>
        simp [Call.resume] at hm

theorem step_history {s t t' : Tasks} {es : List TaskEvent} {e : TaskEvent}
    (hrun : run step s es = some t) (h : History s es t) (hsends : t.SendsAsLeader e = true)
    (hstep : t.step e = some t') : History s (es ++ [e]) t' := by
  cases e with
  | call e =>
    obtain ⟨n, hn, rfl⟩ := Option.map_eq_some_iff.mp hstep
    exact ⟨(step_nodeId hn).trans h.nodeId, elected_of_step hrun h hstep (Or.inr ⟨e, hn⟩),
      h.round, h.sent_append _⟩
  | leaderCheck =>
    obtain rfl := Option.some.inj hstep
    split_ifs with hlead
    · refine ⟨h.nodeId, fun hl => (h.elected hl).append _, fun round rest hin => ?_,
        h.sent_append _⟩
      rcases List.mem_append.mp hin with hin | hin
      · exact h.round round rest hin
      · simp at hin
    · exact ⟨h.nodeId, fun hl => (h.elected hl).append _, h.round, h.sent_append _⟩
  | resume k clock =>
    obtain ⟨c, hc, rfl⟩ := Option.map_eq_some_iff.mp hstep
    exact resume_history hrun h hc hsends

/-- Node `a` is elected in term 1, and a caller of `sync_logs` sees it lead. -/
def electedAndChecked : List TaskEvent :=
  [.call (.becomeCandidate { now := 1, unixMs := fun _ => 1 }),
    .call (.voteQuorum { now := 2, unixMs := fun _ => 2 } 1),
    .leaderCheck]

/-- The call reads the node and sends to the first peer. -/
def syncFirst : List TaskEvent :=
  [.resume 0 { now := 4, unixMs := fun _ => 4 }, .resume 0 { now := 5, unixMs := fun _ => 5 }]

end Tasks

end OxideKv
