import OxideKv.Lib.Run
import OxideKv.Raft.Configurations

/-!
# Membership changes of one leader

A change is two entries: `Joint { old, new }`, which `propose_add_node` and
`propose_remove_node` append, and `Simple(new)`, which the leader appends when
it applies the first one.  In between, the second one waits in a single slot,
`pending_post_joint_simple`.

`ChangeTo v servers` says how far the change to `servers` has got.  Applying
the log keeps it, as long as the second entry can be written when its turn comes
(`SecondPhaseReady`), and a new change begins where the last one has ended, as
long as every change is asked for when the one before it has been applied
(`Settled`).  `no_update_lost` is what follows for every run of a leader.  A
change that is asked for earlier takes the slot of the one before it.
-/

namespace OxideKv

open Relation Run

/-- How far the change to `servers` has got. -/
inductive ChangeTo : ConfigView → List ServerId → Prop where
  | settled (servers : List ServerId) (pending : Option Configuration) :
      ChangeTo ⟨.simple servers, [], pending⟩ servers
  | joint (old servers : List ServerId) :
      ChangeTo ⟨.simple old, [.joint old servers], some (.simple servers)⟩ servers
  | simple (old servers : List ServerId) :
      ChangeTo ⟨.joint old servers, [.simple servers], none⟩ servers

/-- The second phase follows the first one. -/
theorem ChangeTo.installs {v v' : ConfigView} {servers : List ServerId} (h : ChangeTo v servers)
    (hstep : Installs v v') : ChangeTo v' servers := by
  cases hstep with
  | next config next rest pending =>
    cases h with
    | joint old =>
      have hmatch : secondPhase (.joint old servers) (some (.simple servers)) =
          [.simple servers] := by
        simp [secondPhase]
      rw [hmatch]
      exact .simple old servers
    | simple old => exact .settled servers none

theorem ChangeTo.installsAll {v v' : ConfigView} {servers : List ServerId}
    (hsteps : ReflTransGen Installs v v') (h : ChangeTo v servers) : ChangeTo v' servers := by
  induction hsteps with
  | refl => exact h
  | tail _ hstep ih => exact ih.installs hstep

namespace RaftNode

/-! ## Runs of a stable leader -/

/-- The servers with the accepted changes of a run performed, in the order in
which they were accepted. -/
def changedAlong (n : RaftNode) (servers : List ServerId) : List NodeEvent → List ServerId
  | [] => servers
  | e :: es =>
      match n.step e with
      | none => servers
      | some n' => changedAlong n' (if n.AcceptsChange e then changed servers e else servers) es

/-- The configuration is simple, and the log has no other one ahead. -/
def Settled (n : RaftNode) : Prop :=
  (∃ servers, n.currentConfig = .simple servers) ∧ n.unapplied = []

instance (n : RaftNode) : Decidable n.Settled :=
  decidable_of_iff ((match n.currentConfig with | .simple _ => true | .joint _ _ => false) = true ∧
      n.unapplied = []) <| by
    unfold Settled
    cases n.currentConfig <;> simp

theorem ChangeTo.of_settled {n : RaftNode} {servers : List ServerId} (h : ChangeTo n.view servers)
    (hsettled : n.unapplied = []) : n.currentConfig = .simple servers := by
  generalize hv : n.view = v at h
  cases h with
  | settled => exact congrArg ConfigView.config hv
  | joint => cases hsettled.symm.trans (congrArg ConfigView.ahead hv)
  | simple => cases hsettled.symm.trans (congrArg ConfigView.ahead hv)

/-- The call leaves the node leader, a second phase that waits can be written,
and a change that is accepted begins where the last one has ended. -/
structure ChangesInOrder (n : RaftNode) (e : NodeEvent) : Prop where
  leads : ∀ n', n.step e = some n' → n'.state = .leader
  plain : e.ProposesPlain
  written : e.AppliesOnLeader = true → n.SecondPhaseReady
  settled : n.AcceptsChange e = true → n.Settled

instance (n : RaftNode) (e : NodeEvent) : Decidable (ChangesInOrder n e) :=
  decidable_of_iff
    ((n.step e).all (fun n' => n'.state == .leader) = true ∧ e.ProposesPlain ∧
      (e.AppliesOnLeader = true → n.SecondPhaseReady) ∧
      (n.AcceptsChange e = true → n.Settled)) <| by
    simp only [Option.all_eq_true, beq_iff_eq]
    exact ⟨fun ⟨h₁, h₂, h₃, h₄⟩ => ⟨h₁, h₂, h₃, h₄⟩, fun ⟨h₁, h₂, h₃, h₄⟩ => ⟨h₁, h₂, h₃, h₄⟩⟩

/-- The leader has applied no more than its log, and the change to `servers` is
on its way. -/
structure Changing (n : RaftNode) (servers : List ServerId) : Prop where
  leads : n.state = .leader
  applied_le : n.lastApplied ≤ n.log.length
  change : ChangeTo n.view servers

theorem step_changing {n n' : RaftNode} {e : NodeEvent} {servers : List ServerId}
    (h : Changing n servers) (horder : ChangesInOrder n e) (hstep : n.step e = some n') :
    Changing n' (if n.AcceptsChange e then changed servers e else servers) := by
  have hleads := horder.leads n' hstep
  have hle := h.applied_le
  cases haccepts : n.AcceptsChange e with
  | true =>
    rw [if_pos rfl]
    obtain ⟨-, happlied, hlen, hview⟩ := accepted_change haccepts hstep
    have hnone := (horder.settled haccepts).2
    have hconfig := ChangeTo.of_settled h.change hnone
    rw [hconfig, hnone, Nat.sub_eq_zero_of_le hle] at hview
    refine ⟨hleads, by omega, ?_⟩
    rw [hview]
    exact .joint servers (changed servers e)
  | false =>
    rw [if_neg (by simp)]
    cases hchange : e.IsChange with
    | true =>
      have hsame := refused_change hchange haccepts hstep
      refine ⟨hleads, ?_, ?_⟩
      · rw [hsame.lastApplied, hsame.log]
        exact hle
      · rw [hsame.view_eq]
        exact h.change
    | false =>
      have hsteps :=
        leader_installs hstep h.leads hleads horder.plain horder.written hchange
      exact ⟨hleads, leader_applied_le hstep h.leads hleads horder.plain hchange hle,
        h.change.installsAll hsteps⟩

theorem run_changing :
    ∀ {es : List NodeEvent} {n n' : RaftNode} {servers : List ServerId}, Changing n servers →
      Along step ChangesInOrder n es → run step n es = some n' →
      Changing n' (changedAlong n servers es) := by
  intro es
  induction es with
  | nil =>
    intro n n' servers h _ hrun
    obtain rfl : n = n' := Option.some.inj hrun
    exact h
  | cons e es ih =>
    rintro n n' servers h ⟨horder, hrest⟩ hrun
    obtain ⟨n₁, he, hes⟩ := run_cons_eq_some.mp hrun
    simp only [changedAlong, he]
    exact ih (step_changing h horder he) (hrest n₁ he) hes

/-- When a leader has applied its whole log, its configuration is the first
one with all accepted changes performed. -/
theorem no_update_lost {n n' : RaftNode} {es : List NodeEvent} {servers : List ServerId}
    (hlead : n.state = .leader) (hle : n.lastApplied ≤ n.log.length)
    (hconfig : n.currentConfig = .simple servers) (hsettled : n.unapplied = [])
    (horder : Along step ChangesInOrder n es) (hrun : run step n es = some n')
    (happlied : n'.lastApplied = n'.log.length) :
    n'.currentConfig = .simple (changedAlong n servers es) := by
  have hstart : ChangeTo n.view servers := by
    unfold view
    rw [hconfig, hsettled]
    exact .settled servers _
  have h := run_changing ⟨hlead, hle, hstart⟩ horder hrun
  refine ChangeTo.of_settled h.change ?_
  unfold unapplied
  rw [happlied, List.drop_length]
  rfl

/-- `a`, elected by `b` and `c`. -/
def leaderOfThree : RaftNode :=
  voteQuorum someClock 1 (promoteToCandidate someClock (freshNode "a" ["b", "c"]))

/-- The peer confirms the entries of `log`. -/
def confirms (peer : String) (log : List LogEntry) : NodeEvent :=
  .appendReply someClock peer
    { term := 1, leaderId := "a", prevLogIndex := 0, prevLogTerm := 0, entries := log,
      leaderCommit := 0 }
    { term := 1, success := true }

/-- The first entry of a change from `a`, `b` and `c`. -/
def jointTo (index : Nat) (new : List String) : LogEntry :=
  { term := 1
    index := index
    command := .installConfiguration
      (.joint (["a", "b", "c"].map serverAt) (new.map serverAt)) }

/-- `d` is added, and both entries of the change are confirmed. -/
def oneChange : List NodeEvent :=
  [.proposeAddNode (serverAt "d"), confirms "b" [jointTo 1 ["a", "b", "c", "d"]],
    confirms "b" [jointTo 1 ["a", "b", "c", "d"],
      { term := 1, index := 2,
        command := .installConfiguration (.simple (["a", "b", "c", "d"].map serverAt)) }],
    confirms "c" [jointTo 1 ["a", "b", "c", "d"],
      { term := 1, index := 2,
        command := .installConfiguration (.simple (["a", "b", "c", "d"].map serverAt)) }]]

theorem no_update_lost_one_change :
    ∃ n', run step leaderOfThree oneChange = some n' ∧ n'.lastApplied = n'.log.length ∧
      n'.currentConfig = .simple (["a", "b", "c", "d"].map serverAt) := by
  obtain ⟨n', hrun, happlied⟩ : ∃ n', run step leaderOfThree oneChange = some n' ∧
      n'.lastApplied = n'.log.length := exists_run_of_any (by decide +kernel)
  have horder : Along step ChangesInOrder leaderOfThree oneChange := by decide +kernel
  have hconfig : n'.currentConfig =
      .simple (changedAlong leaderOfThree (["a", "b", "c"].map serverAt) oneChange) :=
    no_update_lost rfl (by decide) rfl rfl horder hrun happlied
  have hchanged : changedAlong leaderOfThree (["a", "b", "c"].map serverAt) oneChange =
      ["a", "b", "c", "d"].map serverAt := by decide +kernel
  exact ⟨n', hrun, happlied, hchanged ▸ hconfig⟩

/-- `e` is added before the change that adds `d` is applied. -/
def overlappingChanges : List NodeEvent :=
  [.proposeAddNode (serverAt "d"), .proposeAddNode (serverAt "e"),
    confirms "b" [jointTo 1 ["a", "b", "c", "d"], jointTo 2 ["a", "b", "c", "e"]]]

theorem update_lost_by_overlappingChanges :
    ∃ n', run step leaderOfThree overlappingChanges = some n' ∧ n'.state = .leader ∧
      n'.commitIndex = n'.log.length ∧ n'.lastApplied = n'.log.length ∧
      changedAlong leaderOfThree (["a", "b", "c"].map serverAt) overlappingChanges =
        ["a", "b", "c", "d", "e"].map serverAt ∧
      n'.currentConfig =
        .joint (["a", "b", "c"].map serverAt) (["a", "b", "c", "e"].map serverAt) :=
  exists_run_of_any (by decide +kernel)

end RaftNode

end OxideKv
