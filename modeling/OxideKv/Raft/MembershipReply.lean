import OxideKv.Raft.MembershipChange

/-!
# The reply to a membership change

`add_node` and `remove_node` of `client.rs` propose the joint configuration,
wait until it is committed, and then take the entry just behind it for the
simple one: the loop looks at the length of the log only.  `MembershipCall` is
such a call with everything that can happen to the leader between its polls.

The simple configuration is appended when the joint one is applied
(`Follows.of_applies`).  So the two indices of the reply are right as long as
no proposal appends an entry while the joint configuration is the last one of
the log (`reported_indices_right`), and wrong when one does.
-/

namespace OxideKv

open RaftNode Run

inductive MembershipRequest where
  | addNode (server : ServerId)
  | removeNode (nodeId : String)
deriving Repr, DecidableEq

namespace MembershipRequest

/-- The call of the node that the request begins with. -/
def call : MembershipRequest → NodeEvent
  | .addNode server => .proposeAddNode server
  | .removeNode nodeId => .proposeRemoveNode nodeId

def propose (n : RaftNode) : MembershipRequest → Except MembershipError Nat × RaftNode
  | .addNode server => proposeAddNode server n
  | .removeNode nodeId => proposeRemoveNode nodeId n

end MembershipRequest

/-- The JSON replies: a refusal, the two that run out of time, and the one
with both indices. -/
inductive MembershipReply where
  | error (e : MembershipError)
  | notCommitted (jointIndex : Nat)
  | simpleNotAppended (jointIndex : Nat)
  | ok (jointIndex simpleIndex : Nat)
deriving Repr, DecidableEq

inductive MembershipPhase where
  | waitCommit (jointIndex : Nat)
  | waitSimple (jointIndex : Nat)
  | replied (reply : MembershipReply)
deriving Repr, DecidableEq

/-- A call of `add_node` or of `remove_node` on `node`. -/
structure MembershipCall where
  node : RaftNode
  phase : MembershipPhase

inductive MembershipEvent where
  /-- Another task of the node gets the lock. -/
  | node (e : NodeEvent)
  /-- A turn of the loop.  `expired` says that its deadline has passed. -/
  | poll (expired : Bool)

namespace MembershipCall

/-- The call up to its first loop. -/
def start (r : MembershipRequest) (n : RaftNode) : MembershipCall :=
  match r.propose n with
  | (.ok jointIndex, n') => { node := n', phase := .waitCommit jointIndex }
  | (.error e, n') => { node := n', phase := .replied (.error e) }

def step (s : MembershipCall) : MembershipEvent → Option MembershipCall
  | .node e => (s.node.step e).map fun n => { s with node := n }
  | .poll expired =>
      match s.phase with
      | .waitCommit jointIndex =>
          if jointIndex ≤ s.node.commitIndex then some { s with phase := .waitSimple jointIndex }
          else if expired then some { s with phase := .replied (.notCommitted jointIndex) }
          else some s
      | .waitSimple jointIndex =>
          if jointIndex < s.node.log.length then
            some { s with phase := .replied (.ok jointIndex (jointIndex + 1)) }
          else if expired then some { s with phase := .replied (.simpleNotAppended jointIndex) }
          else some s
      | .replied _ => none

/-- The joint entry that the call waits for. -/
def waitsFor (s : MembershipCall) : Option Nat :=
  match s.phase with
  | .waitCommit jointIndex | .waitSimple jointIndex => some jointIndex
  | .replied _ => none

/-- The node stays the leader, and while the joint entry that the call waits
for is the last one of the log, a proposal appends nothing. -/
def Undisturbed (s : MembershipCall) : MembershipEvent → Prop
  | .node e => ∀ n', s.node.step e = some n' → n'.state = .leader ∧
      (e.IsProposal = true → s.waitsFor = some s.node.log.length → n'.log = s.node.log)
  | .poll _ => True

instance (s : MembershipCall) (e : MembershipEvent) : Decidable (s.Undisturbed e) :=
  decidable_of_iff
    ((match e with
      | .node e => (s.node.step e).all fun n' => decide (n'.state = .leader ∧
          (e.IsProposal = true → s.waitsFor = some s.node.log.length → n'.log = s.node.log))
      | .poll _ => true) = true)
    (by cases e <;> simp only [Undisturbed, Option.all_eq_true, decide_eq_true_eq])

end MembershipCall

namespace RaftNode

/-! ## What follows the joint entry -/

/-- The log ends at `index` and at most `simpleNew` waits to be appended, or
the next entry installs `simpleNew`. -/
def SimpleNext (simpleNew : Configuration) (index : Nat) (n : RaftNode) : Prop :=
  (n.log.length = index ∧ ∀ c, n.pendingPostJointSimple = some c → c = simpleNew) ∨
    ∃ entry, n.log[index]? = some entry ∧ entry.command = .installConfiguration simpleNew

theorem SimpleNext.of_prefix {simpleNew : Configuration} {index : Nat} {n n' : RaftNode}
    (h : SimpleNext simpleNew index n) (hlt : index < n.log.length) (hlog : n.log <+: n'.log) :
    SimpleNext simpleNew index n' := by
  rcases h with ⟨hlen, -⟩ | ⟨entry, hentry, hcommand⟩
  · omega
  · obtain ⟨rest, hrest⟩ := hlog
    refine Or.inr ⟨entry, ?_, hcommand⟩
    rw [← hrest, List.getElem?_append_left hlt]
    exact hentry

/-- A configuration that is applied leaves what waits, drops it, or appends
it. -/
theorem installConfiguration_pending (config : Configuration) (n : RaftNode) :
    ((installConfiguration config n).log = n.log ∧
        ∀ c, (installConfiguration config n).pendingPostJointSimple = some c →
          n.pendingPostJointSimple = some c) ∨
      ∃ simpleNew entry, n.pendingPostJointSimple = some simpleNew ∧
        (installConfiguration config n).log = n.log ++ [entry] ∧
        entry.command = .installConfiguration simpleNew := by
  unfold installConfiguration
  dsimp only
  split_ifs
  · cases hpend : n.pendingPostJointSimple with
    | none => exact Or.inl ⟨rfl, fun c hc => hc⟩
    | some simpleNew =>
      dsimp only
      split_ifs
      · set m : RaftNode :=
          { n with
            currentConfig := config
            peers := peersOf n.nodeId config
            pendingPostJointSimple := none }
        obtain ⟨storage, -, -, ⟨heq, -⟩ | ⟨e, heq, -⟩⟩ :=
          appendEntry_cases (m.nextEntry (.installConfiguration simpleNew)) m
        · rw [heq]
          exact Or.inr ⟨simpleNew, _, rfl, rfl, rfl⟩
        · rw [heq]
          exact Or.inl ⟨rfl, fun c hc => by cases hc⟩
      · exact Or.inl ⟨rfl, fun c hc => by cases hc⟩
  · exact Or.inl ⟨rfl, fun c hc => hc⟩

theorem SimpleNext.of_sameConfig {simpleNew : Configuration} {index : Nat} {n n' : RaftNode}
    (hnext : SimpleNext simpleNew index n) (h : SameConfig n n') :
    SimpleNext simpleNew index n' := by
  unfold SimpleNext
  rw [h.log, h.pending]
  exact hnext

theorem SimpleNext.of_applies {simpleNew : Configuration} {index : Nat} {n n' : RaftNode}
    (h : Applies n n') : SimpleNext simpleNew index n → SimpleNext simpleNew index n' := by
  induction h with
  | rest hsame => exact fun hnext => hnext.of_sameConfig hsame
  | @apply n entry unixMs hentry =>
    rintro (⟨hlen, hpending⟩ | ⟨next, hnext, hcommand⟩)
    · cases hc : entry.command with
      | installConfiguration config =>
        rcases installConfiguration_pending config n with
          ⟨hlog, hsub⟩ | ⟨c, next, hc, hlog, hcommand⟩
        · refine Or.inl ⟨?_, fun c hc => hpending c (hsub c hc)⟩
          show (installConfiguration config n).log.length = index
          rw [hlog]
          exact hlen
        · obtain rfl := hpending c hc
          refine Or.inr ⟨next, ?_, hcommand⟩
          show (installConfiguration config n).log[index]? = some next
          rw [hlog, ← hlen, List.getElem?_concat_length]
      | _ => exact Or.inl ⟨hlen, hpending⟩
    · refine Or.inr ⟨next, ?_, hcommand⟩
      obtain ⟨rest, hrest⟩ := (applyCommand_extends unixMs entry.command n).isPrefix
      show (applyCommand unixMs entry.command n).log[index]? = some next
      rw [← hrest, List.getElem?_append_left (List.getElem?_eq_some_iff.mp hnext).1]
      exact hnext
  | trans _ _ ih₁ ih₂ => exact fun hnext => ih₂ (ih₁ hnext)

/-- A change is refused by the log file, or its joint entry is appended and its
simple one waits. -/
theorem proposeConfiguration_cases (old new : List ServerId) (n : RaftNode) :
    (∃ e n', proposeConfiguration old new n = (.error e, n') ∧ n'.state = n.state) ∨
      ∃ entry n', proposeConfiguration old new n = (.ok (n.log.length + 1), n') ∧
        n'.log = n.log ++ [entry] ∧ entry.command = .installConfiguration (.joint old new) ∧
        n'.pendingPostJointSimple = some (.simple new) ∧ n'.state = n.state := by
  unfold proposeConfiguration
  obtain ⟨storage, -, -, ⟨heq, -⟩ | ⟨e, heq, -⟩⟩ :=
    appendEntry_cases (n.nextEntry (.installConfiguration (.joint old new))) n
  · rw [heq]
    exact Or.inr ⟨_, _, rfl, rfl, rfl, rfl, rfl⟩
  · rw [heq]
    exact Or.inl ⟨_, _, rfl, rfl⟩

/-- A proposal that appends nothing leaves what waits. -/
theorem proposal_pending {n n' : RaftNode} {e : NodeEvent} (he : e.IsProposal = true)
    (h : n.step e = some n') (hlog : n'.log = n.log) :
    n'.pendingPostJointSimple = n.pendingPostJointSimple := by
  have happends : ∀ {m : RaftNode}, Appends (fun _ => True) n m →
      m.pendingPostJointSimple = n.pendingPostJointSimple := by
    rintro m ⟨storage, entries, rfl, -⟩
    rfl
  have hchange : e.IsChange = true → n'.pendingPostJointSimple = n.pendingPostJointSimple := by
    intro hchange
    rcases change_cases hchange h with ⟨-, -, hconfig⟩ | ⟨-, storage, rfl, -⟩
    · rcases proposeConfiguration_cases n.currentConfig.allServers
          (changed n.currentConfig.allServers e) n with ⟨error, n₁, heq, -⟩ | ⟨entry, n₁, heq, hplaced⟩
      · rw [heq] at hconfig
        cases congrArg Prod.fst hconfig
      · rw [heq] at hconfig
        obtain rfl : n₁ = n' := congrArg Prod.snd hconfig
        have hlen := congrArg List.length (hplaced.1.symm.trans hlog)
        simp at hlen
    · rfl
  cases e with
  | propose command =>
    obtain rfl := Option.some.inj h
    exact happends (propose_appends trivial n)
  | proposeBatch commands =>
    obtain rfl := Option.some.inj h
    exact happends (proposeBatch_appends (fun _ _ => trivial) n)
  | proposeAbortTx txId =>
    obtain rfl := Option.some.inj h
    exact happends (proposeAbortTx_appends (P := fun _ => True) trivial n)
  | proposeAddNode | proposeRemoveNode => exact hchange rfl
  | _ => cases he

/-- The joint entry of the change has the place `index` in the log of a
leader, and its simple one is next. -/
structure Placed (old new : List ServerId) (index : Nat) (n : RaftNode) : Prop where
  leads : n.state = .leader
  joint : ∃ entry, n.log[index - 1]? = some entry ∧
    entry.command = .installConfiguration (.joint old new)
  le_length : index ≤ n.log.length
  next : SimpleNext (.simple new) index n

/-- A call on a leader that stays one, and that appends no entry of its own
just behind the joint one. -/
theorem Placed.step {old new : List ServerId} {index : Nat} {n n' : RaftNode} {e : NodeEvent}
    (h : Placed old new index n) (hstep : n.step e = some n') (hleads : n'.state = .leader)
    (hquiet : e.IsProposal = true → n.log.length = index → n'.log = n.log) :
    Placed old new index n' := by
  obtain ⟨-, hlog⟩ := step_leader hstep h.leads hleads
  obtain ⟨entry, hentry, hcommand⟩ := h.joint
  refine ⟨hleads, ⟨entry, ?_, hcommand⟩, h.le_length.trans hlog.length_le, ?_⟩
  · obtain ⟨rest, hrest⟩ := hlog
    rw [← hrest, List.getElem?_append_left (List.getElem?_eq_some_iff.mp hentry).1]
    exact hentry
  · rcases Nat.lt_or_eq_of_le h.le_length with hlt | heq
    · exact h.next.of_prefix hlt hlog
    · cases hproposal : e.IsProposal with
      | false =>
        cases happlies : e.AppliesOnLeader with
        | true => exact h.next.of_applies (leader_applies hstep h.leads hleads happlies)
        | false => exact h.next.of_sameConfig (leader_rests hstep h.leads hleads hproposal happlies)
      | true =>
        have hsame := hquiet hproposal heq.symm
        have hpending := proposal_pending hproposal hstep hsame
        have hnext := h.next
        unfold SimpleNext at hnext ⊢
        rw [hsame, hpending]
        exact hnext

end RaftNode

namespace MembershipCall

/-! ## Runs of the call -/

/-- What a call to change `old` to `new` knows of the log of its node. -/
def Tracks (old new : List ServerId) (s : MembershipCall) : Prop :=
  s.node.state = .leader ∧
    match s.phase with
    | .waitCommit index | .waitSimple index => Placed old new index s.node
    | .replied (.ok index next) =>
        next = index + 1 ∧ index < s.node.log.length ∧ Placed old new index s.node
    | .replied _ => True

/-- The request is refused, or its joint entry is the last one of the log. -/
theorem propose_cases (r : MembershipRequest) (n : RaftNode) :
    (∃ e n', r.propose n = (.error e, n') ∧ n'.state = n.state) ∨
      ∃ n', r.propose n = (.ok (n.log.length + 1), n') ∧ (n.state = .leader →
        Placed n.currentConfig.allServers (changed n.currentConfig.allServers r.call)
          (n.log.length + 1) n') := by
  have hconfig : ∀ old new,
      (∃ e n', proposeConfiguration old new n = (.error e, n') ∧ n'.state = n.state) ∨
        ∃ n', proposeConfiguration old new n = (.ok (n.log.length + 1), n') ∧
          (n.state = .leader → Placed old new (n.log.length + 1) n') := by
    intro old new
    rcases proposeConfiguration_cases old new n with
      hrefused | ⟨entry, n', heq, hlog, hcommand, hpending, hstate⟩
    · exact Or.inl hrefused
    · have hlen : n'.log.length = n.log.length + 1 := by simp [hlog]
      have hentry : n'.log[n.log.length + 1 - 1]? = some entry := by simp [hlog]
      refine Or.inr ⟨n', heq, fun hlead => ?_⟩
      refine ⟨hstate.trans hlead, ⟨entry, hentry, hcommand⟩, hlen.ge, Or.inl ⟨hlen, ?_⟩⟩
      intro c hc
      exact Option.some.inj (hc.symm.trans hpending)
  cases r with
  | addNode server =>
    show (∃ e n', proposeAddNode server n = (.error e, n') ∧ n'.state = n.state) ∨
      ∃ n', proposeAddNode server n = (.ok (n.log.length + 1), n') ∧ _
    unfold proposeAddNode
    split_ifs
    · exact Or.inl ⟨_, n, rfl, rfl⟩
    · exact Or.inl ⟨_, n, rfl, rfl⟩
    · exact hconfig _ _
  | removeNode nodeId =>
    show (∃ e n', proposeRemoveNode nodeId n = (.error e, n') ∧ n'.state = n.state) ∨
      ∃ n', proposeRemoveNode nodeId n = (.ok (n.log.length + 1), n') ∧ _
    unfold proposeRemoveNode
    dsimp only
    split_ifs
    · exact Or.inl ⟨_, n, rfl, rfl⟩
    · exact Or.inl ⟨_, n, rfl, rfl⟩
    · exact Or.inl ⟨_, n, rfl, rfl⟩
    · exact Or.inl ⟨_, n, rfl, rfl⟩
    · exact hconfig _ _

theorem start_tracks (r : MembershipRequest) {n : RaftNode} (hlead : n.state = .leader) :
    Tracks n.currentConfig.allServers (changed n.currentConfig.allServers r.call) (start r n) := by
  unfold start
  rcases propose_cases r n with ⟨e, n', heq, hstate⟩ | ⟨n', heq, hplaced⟩
  · rw [heq]
    exact ⟨hstate.trans hlead, trivial⟩
  · rw [heq]
    exact ⟨(hplaced hlead).leads, hplaced hlead⟩

theorem Tracks.step {old new : List ServerId} {s s' : MembershipCall} {e : MembershipEvent}
    (h : Tracks old new s) (hquiet : s.Undisturbed e) (hstep : s.step e = some s') :
    Tracks old new s' := by
  obtain ⟨hlead, hphase⟩ := h
  cases e with
  | node e =>
    obtain ⟨n', hn, rfl⟩ := Option.map_eq_some_iff.mp hstep
    obtain ⟨hlead', hsame⟩ := hquiet n' hn
    refine ⟨hlead', ?_⟩
    unfold waitsFor at hsame
    dsimp only
    cases hp : s.phase with
    | waitCommit index =>
      rw [hp] at hphase hsame
      exact hphase.step hn hlead' fun he hlen => hsame he (by rw [hlen])
    | waitSimple index =>
      rw [hp] at hphase hsame
      exact hphase.step hn hlead' fun he hlen => hsame he (by rw [hlen])
    | replied reply =>
      rw [hp] at hphase
      cases reply with
      | ok index next =>
        obtain ⟨hnext, hlt, hplaced⟩ := hphase
        have hlog := (step_leader hn hlead hlead').2.length_le
        exact ⟨hnext, by omega, hplaced.step hn hlead' fun _ hlen => by omega⟩
      | _ => trivial
  | poll expired =>
    unfold MembershipCall.step at hstep
    cases hp : s.phase with
    | waitCommit index =>
      rw [hp] at hphase hstep
      dsimp only at hphase hstep
      split_ifs at hstep <;> obtain rfl := Option.some.inj hstep
      · exact ⟨hlead, hphase⟩
      · exact ⟨hlead, trivial⟩
      · exact ⟨hlead, by rw [hp]; exact hphase⟩
    | waitSimple index =>
      rw [hp] at hphase hstep
      dsimp only at hphase hstep
      split_ifs at hstep with hlt <;> obtain rfl := Option.some.inj hstep
      · exact ⟨hlead, rfl, hlt, hphase⟩
      · exact ⟨hlead, trivial⟩
      · exact ⟨hlead, by rw [hp]; exact hphase⟩
    | replied reply =>
      rw [hp] at hstep
      cases hstep

/-- A reply with both indices is given only when the joint configuration of the
request and its simple one are the entries at these indices. -/
theorem reported_indices_right {n : RaftNode} {r : MembershipRequest} {es : List MembershipEvent}
    {s : MembershipCall} {jointIndex simpleIndex : Nat} (hlead : n.state = .leader)
    (hquiet : Along step Undisturbed (start r n) es) (hrun : run step (start r n) es = some s)
    (hreply : s.phase = .replied (.ok jointIndex simpleIndex)) :
    (s.node.log[jointIndex - 1]?).map LogEntry.command = some (.installConfiguration
        (.joint n.currentConfig.allServers (changed n.currentConfig.allServers r.call))) ∧
      (s.node.log[simpleIndex - 1]?).map LogEntry.command = some (.installConfiguration
        (.simple (changed n.currentConfig.allServers r.call))) := by
  obtain ⟨-, hphase⟩ := run_invariant (fun h hquiet hstep => h.step hquiet hstep)
    (start_tracks r hlead) hquiet hrun
  rw [hreply] at hphase
  obtain ⟨rfl, hlt, hplaced⟩ := hphase
  obtain ⟨entry, hentry, hjoint⟩ := hplaced.joint
  constructor
  · rw [hentry]
    exact congrArg some hjoint
  · rcases hplaced.next with ⟨hlen, -⟩ | ⟨next, hnext, hsimple⟩
    · omega
    · rw [Nat.add_sub_cancel, hnext]
      exact congrArg some hsimple

/-- `d` is added and `b` confirms the joint entry. -/
def committed : MembershipEvent := .node (confirms "b" [jointTo 1 ["a", "b", "c", "d"]])

theorem reported_indices_right_undisturbed :
    ∃ s, run step (start (.addNode (serverAt "d")) leaderOfThree)
        [committed, .poll false, .poll false] = some s ∧
      s.phase = .replied (.ok 1 2) ∧
      (s.node.log[0]?).map LogEntry.command = some (.installConfiguration
        (.joint (["a", "b", "c"].map serverAt) (["a", "b", "c", "d"].map serverAt))) ∧
      (s.node.log[1]?).map LogEntry.command = some (.installConfiguration
        (.simple (["a", "b", "c", "d"].map serverAt))) := by
  obtain ⟨s, hrun, hreply⟩ : ∃ s, run step (start (.addNode (serverAt "d")) leaderOfThree)
      [committed, .poll false, .poll false] = some s ∧ s.phase = .replied (.ok 1 2) :=
    exists_run_of_any (by decide +kernel)
  exact ⟨s, hrun, hreply,
    reported_indices_right (by decide +kernel) (by decide +kernel) hrun hreply⟩

/-- Another client writes before the joint entry is committed. -/
theorem reported_index_of_write :
    ∃ s, run step (start (.addNode (serverAt "d")) leaderOfThree)
        [.node (.propose (.set "x" "1")), committed, .poll false, .poll false] = some s ∧
      s.phase = .replied (.ok 1 2) ∧
      s.node.log.map LogEntry.command =
        [.installConfiguration
            (.joint (["a", "b", "c"].map serverAt) (["a", "b", "c", "d"].map serverAt)),
          .set "x" "1",
          .installConfiguration (.simple (["a", "b", "c", "d"].map serverAt))] :=
  exists_run_of_any (by decide +kernel)

end MembershipCall

end OxideKv
