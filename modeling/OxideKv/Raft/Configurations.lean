import Mathlib.Logic.Relation
import OxideKv.Raft.Confirmations
import OxideKv.Raft.Plain

/-!
# The configuration of a node

A node changes its configuration when it applies an `InstallConfiguration`
entry, not when it appends it.  `ConfigView` is the node as far as this goes:
the configuration it is in, those that its log still has ahead, and the one
that waits for its joint configuration to be applied.

A call on a leader appends entries without a configuration (`AppendsPlain`), or
it applies entries of its log one after the other (`Applies`), or it asks for a
membership change.  The first leaves the view as it is, and the second is a
number of `Installs` steps on it, as long as a second phase that waits can be
written when its turn comes (`leader_installs`).
-/

namespace OxideKv

/-- The configuration that an entry installs. -/
def LogEntry.installs (e : LogEntry) : Option Configuration :=
  match e.command with
  | .installConfiguration config => some config
  | _ => none

theorem LogEntry.installs_eq_none {e : LogEntry} (h : e.command.isPlain = true) :
    e.installs = none := by
  unfold installs
  cases hc : e.command <;> simp_all [Command.isPlain]

theorem LogEntry.command_of_installs {e : LogEntry} {config : Configuration}
    (h : e.installs = some config) : e.command = .installConfiguration config := by
  unfold installs at h
  split at h
  · rw [← Option.some.inj h]
    assumption
  · cases h

theorem LogEntry.isPlain_of_installs {e : LogEntry} (h : e.installs = none) :
    e.command.isPlain = true := by
  unfold installs at h
  cases hc : e.command <;> simp_all [Command.isPlain]

/-- The call proposes no configuration: `dispatch_command` refuses it to
clients, and the coordinators propose transactions only. -/
def NodeEvent.ProposesPlain : NodeEvent → Prop
  | .propose command => command.isPlain = true
  | .proposeBatch commands => ∀ c ∈ commands, c.isPlain = true
  | _ => True

instance (e : NodeEvent) : Decidable e.ProposesPlain :=
  decidable_of_iff
    ((match e with
      | .propose command => command.isPlain
      | .proposeBatch commands => commands.all Command.isPlain
      | _ => true) = true) (by cases e <;> simp [NodeEvent.ProposesPlain])

/-- The call asks for a membership change. -/
def NodeEvent.IsChange : NodeEvent → Bool
  | .proposeAddNode _ | .proposeRemoveNode _ => true
  | _ => false

/-- The call may have a leader apply entries. -/
def NodeEvent.AppliesOnLeader : NodeEvent → Bool
  | .txVoteRequest _ _ | .syncAlone _ | .appendReply _ _ _ _ => true
  | _ => false

/-- The next append returns an error: the log file cannot be opened, written or
synced. -/
def RaftStorage.AppendFails (s : RaftStorage) : Prop := true ∈ s.walFaults.take 3

instance (s : RaftStorage) : Decidable s.AppendFails := inferInstanceAs (Decidable (_ ∈ _))

theorem RaftStorage.appendWalLog_of_not_fails {s : RaftStorage} (h : ¬s.AppendFails)
    (entry : LogEntry) : ∃ s', appendWalLog entry s = (.ok (), s') := by
  obtain ⟨wal, metaFile, snapshot, faults, metaFaults⟩ := s
  match faults with
  | [] | [false] | [false, false] | false :: false :: false :: rest => exact ⟨_, rfl⟩
  | true :: rest | false :: true :: rest | false :: false :: true :: rest =>
    exact absurd (by simp [AppendFails]) h

namespace RaftNode

theorem appendEntry_of_not_fails {n : RaftNode} (h : ¬n.storage.AppendFails) (entry : LogEntry) :
    ∃ storage, appendEntry entry n =
      (.ok (), { n with storage := storage, log := n.log ++ [entry] }) := by
  obtain ⟨storage, hwritten⟩ := RaftStorage.appendWalLog_of_not_fails h entry
  rw [appendEntry, hwritten]
  exact ⟨storage, rfl⟩

/-- A second phase that waits can be written to the log file. -/
def SecondPhaseReady (n : RaftNode) : Prop :=
  n.pendingPostJointSimple ≠ none → ¬n.storage.AppendFails

instance (n : RaftNode) : Decidable n.SecondPhaseReady :=
  inferInstanceAs (Decidable (_ → _))

@[simp] theorem postJointMatches_joint (old new servers : List ServerId) :
    postJointMatches (.joint old new) (.simple servers) = (new == servers) := by
  show (new == servers || false) = _
  rw [Bool.or_false]

/-- The configurations of the log that are still to be applied. -/
def unapplied (n : RaftNode) : List Configuration :=
  (n.log.drop n.lastApplied).filterMap LogEntry.installs

/-! ## Small changes of a leader -/

/-- Role, log and configuration are the same. -/
structure SameConfig (n n' : RaftNode) : Prop where
  state : n'.state = n.state
  log : n'.log = n.log
  lastApplied : n'.lastApplied = n.lastApplied
  config : n'.currentConfig = n.currentConfig
  pending : n'.pendingPostJointSimple = n.pendingPostJointSimple

theorem SameConfig.refl (n : RaftNode) : SameConfig n n := ⟨rfl, rfl, rfl, rfl, rfl⟩

/-- Entries without a configuration are appended, and nothing else changes. -/
def AppendsPlain (n n' : RaftNode) : Prop :=
  ∃ entries : List LogEntry, (∀ e ∈ entries, e.installs = none) ∧
    SameConfig { n with log := n.log ++ entries } n'

theorem SameConfig.appendsPlain {n n' : RaftNode} (h : SameConfig n n') : AppendsPlain n n' :=
  ⟨[], nofun, h.state, h.log.trans (List.append_nil n.log).symm, h.lastApplied, h.config,
    h.pending⟩

/-- Entries of the log are applied one after the other. -/
inductive Applies : RaftNode → RaftNode → Prop where
  | rest {n n' : RaftNode} (h : SameConfig n n')
      (hfaults : n'.storage.walFaults = n.storage.walFaults) : Applies n n'
  | apply {n : RaftNode} (entry : LogEntry) (unixMs : Nat)
      (hnext : n.log[n.lastApplied]? = some entry) :
      Applies n { applyCommand unixMs entry.command n with lastApplied := n.lastApplied + 1 }
  | trans {n n₁ n₂ : RaftNode} (h₁ : Applies n n₁) (h₂ : Applies n₁ n₂) : Applies n n₂

theorem Applies.refl (n : RaftNode) : Applies n n := .rest (SameConfig.refl n) rfl

theorem applyLogs_applies (clock : Clock) (n : RaftNode) : Applies n (applyLogs clock n) := by
  have hloop : ∀ (fuel : Nat) (n : RaftNode), Applies n (applyLoop clock fuel n) := by
    intro fuel
    induction fuel with
    | zero => exact Applies.refl
    | succ fuel ih =>
      intro n
      rw [applyLoop]
      split_ifs
      · cases hnext : n.log[n.lastApplied]? with
        | none => exact Applies.refl n
        | some entry =>
          dsimp only
          refine .trans ?_ (ih _)
          rw [applyCommand_lastApplied]
          exact .apply entry _ hnext
      · exact Applies.refl n
  exact hloop _ n

theorem maybeCommit_applies (clock : Clock) (n : RaftNode) : Applies n (maybeCommit clock n) := by
  rcases maybeCommit_cases clock n with heq | ⟨c, -, -, -, -, -, heq⟩
  · rw [heq]
    exact Applies.refl n
  · rw [heq]
    refine .trans ?_ (applyLogs_applies clock _)
    exact .rest ⟨rfl, rfl, rfl, rfl, rfl⟩ rfl

theorem AppendsPlain.of_appends {n n' : RaftNode}
    (happends : Appends (fun c => c.isPlain = true) n n') : AppendsPlain n n' := by
  obtain ⟨storage, entries, rfl, -, -, hplain⟩ := happends
  exact ⟨entries, fun e he => LogEntry.installs_eq_none (hplain e he), rfl, rfl, rfl, rfl, rfl⟩

/-- A call on a node that leads before and after it, in which a leader applies
entries. -/
theorem leader_applies {n n' : RaftNode} {e : NodeEvent} (h : n.step e = some n')
    (hlead : n.state = .leader) (hlead' : n'.state = .leader)
    (happlies : e.AppliesOnLeader = true) : Applies n n' := by
  have hdown : ∀ term, (stepDown term n).state ≠ .leader := by
    intro term
    obtain ⟨storage, -, -, -, heq⟩ := stepDown_eq term n
    rw [heq]
    simp
  cases e with
  | txVoteRequest clock req =>
    obtain rfl := Option.some.inj h
    unfold handleTxVoteRequest at hlead' ⊢
    have hforward : Applies n (applyLogs clock (fastForwardCommit req.lastLogIndex n)) := by
      refine .trans ?_ (applyLogs_applies clock _)
      unfold fastForwardCommit
      split_ifs <;> exact .rest ⟨rfl, rfl, rfl, rfl, rfl⟩ rfl
    dsimp only at hlead' ⊢
    by_cases hold : req.term < n.currentTerm
    · rw [if_pos hold]
      exact Applies.refl n
    · rw [if_neg hold] at hlead' ⊢
      by_cases hnew : n.currentTerm < req.term
      · rw [if_pos hnew] at hlead'
        exact absurd hlead' (hdown _)
      · rw [if_neg hnew]
        split_ifs
        · exact Applies.refl n
        · exact hforward
        · exact hforward.trans (.rest ⟨rfl, rfl, rfl, rfl, rfl⟩ rfl)
  | syncAlone clock =>
    obtain rfl := Option.some.inj h
    unfold syncAlone
    rw [if_pos hlead]
    exact maybeCommit_applies clock n
  | appendReply clock peer args reply =>
    obtain rfl := Option.some.inj h
    unfold appendReply at hlead' ⊢
    dsimp only at hlead' ⊢
    by_cases hok : reply.success = true
    · rw [if_pos hok]
      refine .trans ?_ (maybeCommit_applies clock _)
      exact .rest ⟨rfl, rfl, rfl, rfl, rfl⟩ rfl
    · rw [if_neg hok] at hlead' ⊢
      by_cases hlt : n.currentTerm < reply.term
      · rw [if_pos hlt] at hlead'
        exact absurd hlead' (hdown _)
      · rw [if_neg hlt]
        split_ifs <;> exact .rest ⟨rfl, rfl, rfl, rfl, rfl⟩ rfl
  | _ => cases happlies

/-- Any other call on such a node that is no proposal. -/
theorem leader_rests {n n' : RaftNode} {e : NodeEvent} (h : n.step e = some n')
    (hlead : n.state = .leader) (hlead' : n'.state = .leader) (hproposal : e.IsProposal = false)
    (happlies : e.AppliesOnLeader = false) : SameConfig n n' := by
  cases e with
  | propose | proposeBatch | proposeAddNode | proposeRemoveNode | proposeAbortTx =>
    cases hproposal
  | txVoteRequest | syncAlone | appendReply => cases happlies
  | requestVote | preVote | becomeCandidate | enterPreVote | preVoteAlone | preVoteStale
  | preVoteQuorum | voteQuorum | voteRefused | coordinatorStepDown =>
    obtain ⟨storage, -, -, -, _, _, _, _, _, rfl⟩ := step_roleMoved h rfl
    exact ⟨hlead'.trans hlead.symm, rfl, rfl, rfl, rfl⟩
  | appendEntries clock args =>
    obtain rfl := Option.some.inj h
    rcases handleAppendEntries_follows clock args n with heq | h
    · rw [heq]
      exact SameConfig.refl n
    · -- the node that takes the request is a follower afterwards
      cases h.state.symm.trans hlead'
  | installSnapshot clock args =>
    obtain ⟨r, hr, rfl⟩ := Option.map_eq_some_iff.mp h
    rcases handleInstallSnapshot_cases hr with ⟨-, heq⟩ | ⟨-, sm, heq⟩
    · rw [heq]
      exact SameConfig.refl n
    · rw [heq] at hlead'
      cases hlead'
  | maybeSnapshot thresholdBytes =>
    obtain ⟨r, hr, rfl⟩ := Option.map_eq_some_iff.mp h
    obtain ⟨storage, -, heq⟩ := maybeSnapshot_storage hr
    rw [heq]
    exact ⟨rfl, rfl, rfl, rfl, rfl⟩

/-- A call on such a node in which nothing is applied and that does not ask for a
change. -/
theorem leader_appends {n n' : RaftNode} {e : NodeEvent} (h : n.step e = some n')
    (hlead : n.state = .leader) (hlead' : n'.state = .leader) (hplain : e.ProposesPlain)
    (happlies : e.AppliesOnLeader = false) (hchange : e.IsChange = false) :
    AppendsPlain n n' := by
  cases e with
  | propose command =>
    obtain rfl := Option.some.inj h
    exact .of_appends (propose_appends hplain n)
  | proposeBatch commands =>
    obtain rfl := Option.some.inj h
    exact .of_appends (proposeBatch_appends hplain n)
  | proposeAbortTx txId =>
    obtain rfl := Option.some.inj h
    exact .of_appends (proposeAbortTx_appends (P := fun c => c.isPlain = true) rfl n)
  | proposeAddNode | proposeRemoveNode => cases hchange
  | txVoteRequest | syncAlone | appendReply => cases happlies
  | _ => exact (leader_rests h hlead hlead' rfl rfl).appendsPlain

/-! ## The view of a leader -/

end RaftNode

/-- The configuration of a node, those ahead in its log, and the one that
waits. -/
structure ConfigView where
  config : Configuration
  ahead : List Configuration
  pending : Option Configuration

def RaftNode.view (n : RaftNode) : ConfigView :=
  { config := n.currentConfig, ahead := n.unapplied, pending := n.pendingPostJointSimple }

/-- What a leader appends when it installs a configuration. -/
def secondPhase (config : Configuration) : Option Configuration → List Configuration
  | some simpleNew => if RaftNode.postJointMatches config simpleNew then [simpleNew] else []
  | none => []

/-- A leader applies the next configuration. -/
inductive Installs : ConfigView → ConfigView → Prop where
  | next (config next : Configuration) (rest : List Configuration)
      (pending : Option Configuration) :
      Installs ⟨config, next :: rest, pending⟩ ⟨next, rest ++ secondPhase next pending, none⟩

namespace RaftNode

open Relation

theorem SameConfig.view_eq {n n' : RaftNode} (h : SameConfig n n') : n'.view = n.view := by
  unfold view unapplied
  rw [h.config, h.pending, h.log, h.lastApplied]

/-- Entries that are appended are ahead, unless more than the log counts as
applied. -/
theorem unapplied_append (n : RaftNode) (entries : List LogEntry) :
    unapplied { n with log := n.log ++ entries } =
      n.unapplied ++
        (entries.drop (n.lastApplied - n.log.length)).filterMap LogEntry.installs := by
  show ((n.log ++ entries).drop n.lastApplied).filterMap LogEntry.installs = _
  rw [List.drop_append, List.filterMap_append]
  rfl

/-- The next entry to apply comes first. -/
theorem unapplied_next {n : RaftNode} {entry : LogEntry}
    (hnext : n.log[n.lastApplied]? = some entry) :
    n.unapplied =
      entry.installs.toList ++ (n.log.drop (n.lastApplied + 1)).filterMap LogEntry.installs := by
  obtain ⟨hlt, rfl⟩ := List.getElem?_eq_some_iff.mp hnext
  unfold unapplied
  rw [List.drop_eq_getElem_cons hlt, List.filterMap_cons]
  cases n.log[n.lastApplied].installs <;> rfl

theorem AppendsPlain.view_eq {n n' : RaftNode} (h : AppendsPlain n n') : n'.view = n.view := by
  obtain ⟨entries, hplain, hsame⟩ := h
  have hnone : (entries.drop (n.lastApplied - n.log.length)).filterMap LogEntry.installs = [] :=
    List.filterMap_eq_nil_iff.mpr fun e he => hplain e (List.mem_of_mem_drop he)
  rw [hsame.view_eq]
  show ConfigView.mk _ (unapplied { n with log := n.log ++ entries }) _ = _
  rw [unapplied_append, hnone, List.append_nil]
  rfl

/-- A leader that installs a configuration takes the one that waits, and
appends it when it is the second phase. -/
theorem installConfiguration_ready {n : RaftNode} (hlead : n.state = .leader)
    (hready : n.SecondPhaseReady) (config : Configuration) :
    ∃ storage entries,
      entries.filterMap LogEntry.installs = secondPhase config n.pendingPostJointSimple ∧
      installConfiguration config n =
        { n with
          currentConfig := config
          peers := peersOf n.nodeId config
          pendingPostJointSimple := none
          storage := storage
          log := n.log ++ entries } := by
  unfold installConfiguration
  dsimp only
  rw [if_pos hlead]
  cases hpend : n.pendingPostJointSimple with
  | none =>
    refine ⟨n.storage, [], rfl, ?_⟩
    rw [List.append_nil]
  | some simpleNew =>
    simp only [secondPhase]
    split_ifs with hmatch
    · obtain ⟨storage, heq⟩ := appendEntry_of_not_fails
        (n := { n with
          currentConfig := config
          peers := peersOf n.nodeId config
          pendingPostJointSimple := none })
        (hready (by rw [hpend]; simp)) (n.nextEntry (.installConfiguration simpleNew))
      exact ⟨storage, [n.nextEntry (.installConfiguration simpleNew)], rfl, congrArg Prod.snd heq⟩
    · exact ⟨n.storage, [], rfl, by rw [List.append_nil]⟩

/-- Applying the log is a number of `Installs` steps. -/
theorem Applies.installs {n n' : RaftNode} (h : Applies n n') :
    n.state = .leader → n.SecondPhaseReady →
      n'.state = .leader ∧ n'.SecondPhaseReady ∧ ReflTransGen Installs n.view n'.view := by
  induction h with
  | rest hsame hfaults =>
    intro hlead hready
    rw [hsame.view_eq]
    refine ⟨hsame.state.trans hlead, ?_, .refl⟩
    unfold SecondPhaseReady RaftStorage.AppendFails
    rw [hsame.pending, hfaults]
    exact hready
  | @apply n entry unixMs hnext =>
    intro hlead hready
    obtain ⟨hlt, -⟩ := List.getElem?_eq_some_iff.mp hnext
    have hahead := unapplied_next hnext
    cases hinst : entry.installs with
    | none =>
      rw [applyCommand_plain unixMs (LogEntry.isPlain_of_installs hinst)]
      refine ⟨hlead, hready, ?_⟩
      rw [hinst] at hahead
      unfold view
      rw [hahead]
      exact .refl
    | some config =>
      rw [LogEntry.command_of_installs hinst]
      obtain ⟨storage, entries, hphase, heq⟩ := installConfiguration_ready hlead hready config
      rw [show applyCommand unixMs (.installConfiguration config) n =
        installConfiguration config n from rfl, heq]
      -- nothing waits any more
      refine ⟨hlead, fun hwaits => absurd rfl hwaits, .single ?_⟩
      have hrest : unapplied { n with
          currentConfig := config
          peers := peersOf n.nodeId config
          pendingPostJointSimple := none
          storage := storage
          log := n.log ++ entries
          lastApplied := n.lastApplied + 1 } =
          (n.log.drop (n.lastApplied + 1)).filterMap LogEntry.installs ++
            secondPhase config n.pendingPostJointSimple := by
        show ((n.log ++ entries).drop (n.lastApplied + 1)).filterMap LogEntry.installs = _
        rw [List.drop_append_of_le_length (by omega), List.filterMap_append, hphase]
      rw [hinst] at hahead
      unfold view
      rw [hahead, hrest]
      exact .next _ _ _ _
  | trans _ _ ih₁ ih₂ =>
    intro hlead hready
    obtain ⟨hlead₁, hready₁, h₁⟩ := ih₁ hlead hready
    obtain ⟨hlead₂, hready₂, h₂⟩ := ih₂ hlead₁ hready₁
    exact ⟨hlead₂, hready₂, h₁.trans h₂⟩

/-- A call on a leader that does not ask for a change installs what is ahead. -/
theorem leader_installs {n n' : RaftNode} {e : NodeEvent} (h : n.step e = some n')
    (hlead : n.state = .leader) (hlead' : n'.state = .leader) (hplain : e.ProposesPlain)
    (hready : e.AppliesOnLeader = true → n.SecondPhaseReady) (hchange : e.IsChange = false) :
    ReflTransGen Installs n.view n'.view := by
  cases happlies : e.AppliesOnLeader with
  | true =>
    obtain ⟨-, -, hsteps⟩ :=
      (leader_applies h hlead hlead' happlies).installs hlead (hready happlies)
    exact hsteps
  | false =>
    rw [(leader_appends h hlead hlead' hplain happlies hchange).view_eq]

theorem Applies.applied_le {n n' : RaftNode} (h : Applies n n') :
    n.lastApplied ≤ n.log.length → n'.lastApplied ≤ n'.log.length := by
  induction h with
  | rest hsame =>
    intro hle
    rw [hsame.log, hsame.lastApplied]
    exact hle
  | @apply n entry unixMs hnext =>
    intro _
    obtain ⟨hlt, -⟩ := List.getElem?_eq_some_iff.mp hnext
    obtain ⟨entries, hlog, -⟩ := (applyCommand_extends unixMs entry.command n).appended
    show n.lastApplied + 1 ≤ (applyCommand unixMs entry.command n).log.length
    rw [hlog, List.length_append]
    omega
  | trans _ _ ih₁ ih₂ => exact fun hle => ih₂ (ih₁ hle)

/-- Such a call does not apply more than the log. -/
theorem leader_applied_le {n n' : RaftNode} {e : NodeEvent} (h : n.step e = some n')
    (hlead : n.state = .leader) (hlead' : n'.state = .leader) (hplain : e.ProposesPlain)
    (hchange : e.IsChange = false) (hle : n.lastApplied ≤ n.log.length) :
    n'.lastApplied ≤ n'.log.length := by
  cases happlies : e.AppliesOnLeader with
  | true => exact (leader_applies h hlead hlead' happlies).applied_le hle
  | false =>
    obtain ⟨entries, -, hsame⟩ := leader_appends h hlead hlead' hplain happlies hchange
    rw [hsame.log, hsame.lastApplied]
    exact hle.trans (by simp)

/-! ## Accepted changes -/

/-- The call is a membership change that returns `Ok`. -/
def AcceptsChange (n : RaftNode) : NodeEvent → Bool
  | .proposeAddNode server => (proposeAddNode server n).1.isOk
  | .proposeRemoveNode nodeId => (proposeRemoveNode nodeId n).1.isOk
  | _ => false

/-- The servers with the change of a call performed. -/
def changed (servers : List ServerId) : NodeEvent → List ServerId
  | .proposeAddNode server => servers ++ [server]
  | .proposeRemoveNode nodeId => servers.filter (fun s => s.nodeId ≠ nodeId)
  | _ => servers

/-- A change is accepted and goes on to log the joint configuration, or it
leaves the node as it is but for the files. -/
theorem change_cases {n n' : RaftNode} {e : NodeEvent} (hchange : e.IsChange = true)
    (hstep : n.step e = some n') :
    (n.AcceptsChange e = true ∧ n.state = .leader ∧
        proposeConfiguration n.currentConfig.allServers (changed n.currentConfig.allServers e) n =
          (.ok (n.log.length + 1), n')) ∨
      n.AcceptsChange e = false ∧ ∃ storage, n' = { n with storage := storage } := by
  have hconfig : ∀ new, (∃ n₁, proposeConfiguration n.currentConfig.allServers new n =
        (.ok (n.log.length + 1), n₁)) ∨
      ∃ e storage, proposeConfiguration n.currentConfig.allServers new n =
        (.error e, { n with storage := storage }) := by
    intro new
    unfold proposeConfiguration
    obtain ⟨storage, -, -, ⟨heq, -⟩ | ⟨e, heq, -⟩⟩ := appendEntry_cases
      (n.nextEntry (.installConfiguration (.joint n.currentConfig.allServers new))) n
    · rw [heq]
      exact Or.inl ⟨_, rfl⟩
    · rw [heq]
      exact Or.inr ⟨_, storage, rfl⟩
  cases e with
  | proposeAddNode server =>
    obtain rfl := Option.some.inj hstep
    simp only [AcceptsChange, proposeAddNode, changed]
    split_ifs with hs
    · exact Or.inr ⟨rfl, n.storage, rfl⟩
    · exact Or.inr ⟨rfl, n.storage, rfl⟩
    · rcases hconfig (n.currentConfig.allServers ++ [server]) with
        ⟨n₁, heq⟩ | ⟨e, storage, heq⟩
      · rw [heq]
        exact Or.inl ⟨rfl, not_not.mp hs, rfl⟩
      · rw [heq]
        exact Or.inr ⟨rfl, storage, rfl⟩
  | proposeRemoveNode nodeId =>
    obtain rfl := Option.some.inj hstep
    simp only [AcceptsChange, proposeRemoveNode, changed]
    split_ifs with hs
    · exact Or.inr ⟨rfl, n.storage, rfl⟩
    · exact Or.inr ⟨rfl, n.storage, rfl⟩
    · exact Or.inr ⟨rfl, n.storage, rfl⟩
    · exact Or.inr ⟨rfl, n.storage, rfl⟩
    · rcases hconfig (n.currentConfig.allServers.filter fun s => s.nodeId ≠ nodeId) with
        ⟨n₁, heq⟩ | ⟨e, storage, heq⟩
      · rw [heq]
        exact Or.inl ⟨rfl, not_not.mp hs, rfl⟩
      · rw [heq]
        exact Or.inr ⟨rfl, storage, rfl⟩
  | _ => cases hchange

/-- A change that is refused leaves the node as it is, but for the files. -/
theorem refused_change {n n' : RaftNode} {e : NodeEvent} (hchange : e.IsChange = true)
    (hrefused : n.AcceptsChange e = false) (hstep : n.step e = some n') : SameConfig n n' := by
  rcases change_cases hchange hstep with ⟨haccepted, -⟩ | ⟨-, storage, rfl⟩
  · rw [hrefused] at haccepted
    cases haccepted
  · exact ⟨rfl, rfl, rfl, rfl, rfl⟩

/-- An accepted change puts the joint configuration ahead, and its second phase
waits. -/
theorem accepted_change {n n' : RaftNode} {e : NodeEvent} (haccepted : n.AcceptsChange e = true)
    (hstep : n.step e = some n') :
    n'.state = n.state ∧ n'.lastApplied = n.lastApplied ∧ n'.log.length = n.log.length + 1 ∧
      n'.view =
        ⟨n.currentConfig,
          n.unapplied ++ [Configuration.joint n.currentConfig.allServers
            (changed n.currentConfig.allServers e)].drop (n.lastApplied - n.log.length),
          some (.simple (changed n.currentConfig.allServers e))⟩ := by
  have hchange : e.IsChange = true := by
    cases e <;> first | rfl | cases haccepted
  rcases change_cases hchange hstep with ⟨-, -, heq⟩ | ⟨hrefused, -⟩
  · set new := changed n.currentConfig.allServers e
    set entry := n.nextEntry (.installConfiguration (.joint n.currentConfig.allServers new))
    obtain ⟨storage, -, -, ⟨happend, -⟩ | ⟨err, happend, -⟩⟩ := appendEntry_cases entry n
    all_goals
      unfold proposeConfiguration at heq
      rw [happend] at heq
    · obtain rfl := congrArg Prod.snd heq
      refine ⟨rfl, rfl, List.length_append, ?_⟩
      have happ := unapplied_append n [entry]
      have hdrop : (List.drop (n.lastApplied - n.log.length) [entry]).filterMap
          LogEntry.installs =
            [Configuration.joint n.currentConfig.allServers new].drop
              (n.lastApplied - n.log.length) := by
        cases n.lastApplied - n.log.length with
        | zero => rfl
        | succ k => simp
      rw [hdrop] at happ
      exact congrArg (fun u => ConfigView.mk n.currentConfig u (some (.simple new))) happ
    · cases congrArg Prod.fst heq
  · rw [haccepted] at hrefused
    cases hrefused

/-! ## The configurations that a node knows of -/

/-- `P` holds of the configuration of the node and of those in its log, and
`Q` of the one that waits. -/
structure Known (P Q : Configuration → Prop) (n : RaftNode) : Prop where
  config : P n.currentConfig
  log : ∀ e ∈ n.log, ∀ c, e.installs = some c → P c
  pending : ∀ c, n.pendingPostJointSimple = some c → Q c

/-- What a call brings to the node meets `P`, and `Q` where it is to wait. -/
def Brings (P Q : Configuration → Prop) (n : RaftNode) : NodeEvent → Prop
  | .propose command => command.isPlain = true
  | .proposeBatch commands => ∀ c ∈ commands, c.isPlain = true
  | .appendEntries _ args => ∀ e ∈ args.entries, ∀ c, e.installs = some c → P c
  | e => n.AcceptsChange e = true →
      P (.joint n.currentConfig.allServers (changed n.currentConfig.allServers e)) ∧
        Q (.simple (changed n.currentConfig.allServers e))

section Known

variable {P Q : Configuration → Prop} {n n' : RaftNode}

theorem Known.of_subset (h : Known P Q n) (hlog : ∀ e ∈ n'.log, e ∈ n.log)
    (hconfig : n'.currentConfig = n.currentConfig)
    (hpending : n'.pendingPostJointSimple = n.pendingPostJointSimple) : Known P Q n' where
  config := by
    rw [hconfig]
    exact h.config
  log := fun e he => h.log e (hlog e he)
  pending := by
    rw [hpending]
    exact h.pending

theorem Known.appends (h : Known P Q n) (happends : Appends (fun c => c.isPlain = true) n n') :
    Known P Q n' := by
  obtain ⟨storage, entries, rfl, -, -, hplain⟩ := happends
  refine ⟨h.config, fun e he c hc => ?_, h.pending⟩
  rcases List.mem_append.mp he with he | he
  · exact h.log e he c hc
  · rw [LogEntry.installs_eq_none (hplain e he)] at hc
    cases hc

theorem Known.appendEntry (h : Known P Q n) {entry : LogEntry}
    (hP : ∀ c, entry.installs = some c → P c) : Known P Q (appendEntry entry n).2 := by
  obtain ⟨storage, -, -, ⟨heq, -⟩ | ⟨e, heq, -⟩⟩ := appendEntry_cases entry n
  · rw [heq]
    refine ⟨h.config, fun e he => ?_, h.pending⟩
    rcases List.mem_append.mp he with he | he
    · exact h.log e he
    · rw [List.mem_singleton.mp he]
      exact hP
  · rw [heq]
    exact ⟨h.config, h.log, h.pending⟩

theorem Known.installConfiguration (hQP : ∀ c, Q c → P c) (h : Known P Q n)
    {config : Configuration} (hP : P config) : Known P Q (installConfiguration config n) := by
  unfold RaftNode.installConfiguration
  dsimp only
  split_ifs with hs
  · cases hpend : n.pendingPostJointSimple with
    | none => exact ⟨hP, h.log, fun c hc => by cases hc⟩
    | some simpleNew =>
      have htaken : Known P Q
          { n with
            currentConfig := config
            peers := peersOf n.nodeId config
            pendingPostJointSimple := none } := ⟨hP, h.log, fun c hc => by cases hc⟩
      dsimp only
      split_ifs
      · refine htaken.appendEntry fun c hc => ?_
        obtain rfl : simpleNew = c := Option.some.inj hc
        exact hQP _ (h.pending _ hpend)
      · exact htaken
  · exact ⟨hP, h.log, h.pending⟩

theorem Known.applyLogs (hQP : ∀ c, Q c → P c) (h : Known P Q n) (clock : Clock) :
    Known P Q (applyLogs clock n) := by
  have hloop : ∀ (fuel : Nat) {n : RaftNode}, Known P Q n →
      Known P Q (applyLoop clock fuel n) := by
    intro fuel
    induction fuel with
    | zero => exact fun h => h
    | succ fuel ih =>
      intro n h
      rw [applyLoop]
      split_ifs
      · cases hnext : n.log[n.lastApplied]? with
        | none => exact h
        | some entry =>
          refine ih ?_
          have happlied : Known P Q
              (applyCommand (clock.unixMs n.lastApplied) entry.command n) := by
            cases hinst : entry.installs with
            | none =>
              rw [applyCommand_plain _ (LogEntry.isPlain_of_installs hinst)]
              exact ⟨h.config, h.log, h.pending⟩
            | some config =>
              rw [LogEntry.command_of_installs hinst]
              exact h.installConfiguration hQP
                (h.log entry (List.mem_of_getElem? hnext) config hinst)
          exact ⟨happlied.config, happlied.log, happlied.pending⟩
      · exact h
  exact hloop _ h

theorem Known.maybeCommit (hQP : ∀ c, Q c → P c) (h : Known P Q n) (clock : Clock) :
    Known P Q (maybeCommit clock n) := by
  rcases maybeCommit_cases clock n with heq | ⟨c, -, -, -, -, -, heq⟩
  · rw [heq]
    exact h
  · rw [heq]
    exact Known.applyLogs (n := { n with commitIndex := c }) hQP ⟨h.config, h.log, h.pending⟩ clock

theorem Known.roleMoved (h : Known P Q n) (hmoved : RoleMoved n n') : Known P Q n' := by
  obtain ⟨storage, -, -, -, _, _, _, _, _, rfl⟩ := hmoved
  exact ⟨h.config, h.log, h.pending⟩

theorem Known.followCommit (hQP : ∀ c, Q c → P c) (h : Known P Q n) (clock : Clock)
    (leaderCommit : Nat) : Known P Q (followCommit clock leaderCommit n) := by
  unfold RaftNode.followCommit
  split_ifs
  · exact Known.applyLogs (n := { n with commitIndex := min leaderCommit n.log.length }) hQP
      ⟨h.config, h.log, h.pending⟩ clock
  · exact h

theorem Known.handleAppendEntries (hQP : ∀ c, Q c → P c) (h : Known P Q n) (clock : Clock)
    {args : AppendEntriesArgs}
    (hargs : ∀ e ∈ args.entries, ∀ c, e.installs = some c → P c) :
    Known P Q (handleAppendEntries clock args n).2 := by
  rcases handleAppendEntries_cases clock args n with ⟨-, heq⟩ | ⟨haccepts, hcases⟩
  · rw [heq]
    exact h
  · obtain ⟨storage, -, -, -, hfollow⟩ := followLeader_eq clock haccepts.1
    rcases hcases with ⟨-, heq⟩ | ⟨-, heq⟩
    · rw [heq, hfollow]
      exact ⟨h.config, h.log, h.pending⟩
    · obtain ⟨storage', -, -, hmerge⟩ :=
        foldl_mergeEntry_eq args.entries (followLeader clock args.term n)
      have hmerged : ∀ e ∈ args.entries.foldl mergeLog n.log, ∀ c, e.installs = some c → P c := by
        intro e he
        rcases foldl_mergeLog_subset args.entries he with he | he
        · exact h.log e he
        · exact hargs e he
      rw [heq]
      refine Known.followCommit hQP ?_ clock args.leaderCommit
      rw [hmerge, hfollow]
      exact ⟨h.config, hmerged, h.pending⟩

/-- A membership change, asked for. -/
theorem Known.change {e : NodeEvent} (h : Known P Q n) (hchange : e.IsChange = true)
    (hbrings : n.AcceptsChange e = true →
      P (.joint n.currentConfig.allServers (changed n.currentConfig.allServers e)) ∧
        Q (.simple (changed n.currentConfig.allServers e)))
    (hstep : n.step e = some n') : Known P Q n' := by
  rcases change_cases hchange hstep with ⟨haccepted, -, heq⟩ | ⟨-, storage, rfl, -⟩
  · obtain ⟨hP, hQ⟩ := hbrings haccepted
    unfold proposeConfiguration at heq
    have happend : Known P Q (RaftNode.appendEntry (n.nextEntry (.installConfiguration
        (.joint n.currentConfig.allServers (changed n.currentConfig.allServers e)))) n).2 :=
      h.appendEntry fun c hc => by
        rw [← Option.some.inj hc]
        exact hP
    split at heq
    · cases congrArg Prod.fst heq
    · rename_i heq'
      rw [heq'] at happend
      obtain rfl := congrArg Prod.snd heq
      refine ⟨happend.config, happend.log, fun c hc => ?_⟩
      rw [← Option.some.inj hc]
      exact hQ
  · exact ⟨h.config, h.log, h.pending⟩

/-- No call brings a configuration from anywhere else. -/
theorem step_known (hQP : ∀ c, Q c → P c) {e : NodeEvent} (h : Known P Q n)
    (hbrings : Brings P Q n e) (hstep : n.step e = some n') : Known P Q n' := by
  cases e with
  | propose command =>
    obtain rfl := Option.some.inj hstep
    exact h.appends (propose_appends hbrings n)
  | proposeBatch commands =>
    obtain rfl := Option.some.inj hstep
    exact h.appends (proposeBatch_appends hbrings n)
  | proposeAbortTx txId =>
    obtain rfl := Option.some.inj hstep
    exact h.appends (proposeAbortTx_appends (P := fun c => c.isPlain = true) rfl n)
  | proposeAddNode | proposeRemoveNode => exact h.change rfl hbrings hstep
  | requestVote | preVote | becomeCandidate | enterPreVote | preVoteAlone | preVoteStale
  | preVoteQuorum | voteQuorum | voteRefused | coordinatorStepDown =>
    exact h.roleMoved (step_roleMoved hstep rfl)
  | txVoteRequest clock req =>
    obtain rfl := Option.some.inj hstep
    have hforward :
        Known P Q (RaftNode.applyLogs clock (fastForwardCommit req.lastLogIndex n)) := by
      refine Known.applyLogs hQP ?_ clock
      unfold fastForwardCommit
      split_ifs <;> exact ⟨h.config, h.log, h.pending⟩
    unfold handleTxVoteRequest
    dsimp only
    split_ifs
    · exact h
    · exact h.roleMoved (stepDown_roleMoved _ n)
    · exact h
    · exact hforward
    · exact ⟨hforward.config, hforward.log, hforward.pending⟩
  | appendEntries clock args =>
    obtain rfl := Option.some.inj hstep
    exact h.handleAppendEntries hQP clock hbrings
  | installSnapshot clock args =>
    obtain ⟨r, hr, rfl⟩ := Option.map_eq_some_iff.mp hstep
    have hadopt := h.roleMoved (adoptNewer_roleMoved args.term n)
    rcases handleInstallSnapshot_cases hr with ⟨-, heq⟩ | ⟨-, sm, heq⟩ <;> rw [heq]
    · exact h
    · exact hadopt.of_subset (fun e he => List.mem_of_mem_filter he) rfl rfl
  | syncAlone clock =>
    obtain rfl := Option.some.inj hstep
    unfold syncAlone
    split_ifs
    · exact h.maybeCommit hQP clock
    · exact h
  | appendReply clock peer args reply =>
    obtain rfl := Option.some.inj hstep
    unfold appendReply
    dsimp only
    split_ifs
    · refine Known.maybeCommit hQP ?_ clock
      exact ⟨h.config, h.log, h.pending⟩
    · exact h.roleMoved (stepDown_roleMoved _ n)
    · exact ⟨h.config, h.log, h.pending⟩
    · exact h
  | maybeSnapshot thresholdBytes =>
    obtain ⟨r, hr, rfl⟩ := Option.map_eq_some_iff.mp hstep
    obtain ⟨storage, -, heq⟩ := maybeSnapshot_storage hr
    rw [heq]
    exact ⟨h.config, h.log, h.pending⟩

end Known

end RaftNode

end OxideKv
