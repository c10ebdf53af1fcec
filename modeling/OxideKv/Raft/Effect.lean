import OxideKv.StateMachine.Operations
import OxideKv.Raft.Frame

/-!
# The effect of a log

What a list of commands is for: the writes it makes, the transactions it
leaves in flight and the configuration it leaves in force.  These are
functions of the commands alone.  `applyCommand_ok` and `replayCommand_ok`
say that a node that applies or replays a command does exactly that, as long
as no file operation fails, and `Applied` carries it through a list of
commands.
-/

namespace OxideKv

open Fallible LastWrite StateMachine

/-- The operations of the transactions in flight, by id. -/
abbrev Staged := String → Option (List TxOp)

/-- No transaction is in flight. -/
def Staged.none : Staged := fun _ => Option.none

namespace Command

/-- The writes of a command. -/
def writes (staged : Staged) : Command → List (String × Option String)
  | .set key value => [(key, some value)]
  | .delete key => [(key, Option.none)]
  | .decideTx txId decision => decisionWrites (staged txId) decision
  | _ => []

/-- The transactions in flight after a command. -/
def stagedAfter (staged : Staged) : Command → Staged
  | .beginTx txId ops => Function.update staged txId (some ops)
  | .decideTx txId _ => Function.update staged txId Option.none
  | _ => staged

/-- The configuration after a command. -/
def configAfter (config : Configuration) : Command → Configuration
  | .installConfiguration config' => config'
  | _ => config

end Command

/-- The writes of a list of commands, in order. -/
def logWrites : Staged → List Command → List (String × Option String)
  | _, [] => []
  | staged, c :: cs => c.writes staged ++ logWrites (c.stagedAfter staged) cs

/-- The transactions in flight after a list of commands. -/
def logStaged (staged : Staged) (cs : List Command) : Staged :=
  cs.foldl (fun staged c => c.stagedAfter staged) staged

/-- The configuration after a list of commands. -/
def logConfig (config : Configuration) (cs : List Command) : Configuration :=
  cs.foldl (fun config c => c.configAfter config) config

theorem logStaged_append (staged : Staged) (cs ds : List Command) :
    logStaged staged (cs ++ ds) = logStaged (logStaged staged cs) ds :=
  List.foldl_append

theorem logConfig_append (config : Configuration) (cs ds : List Command) :
    logConfig config (cs ++ ds) = logConfig (logConfig config cs) ds :=
  List.foldl_append

theorem logWrites_append (cs ds : List Command) :
    ∀ staged : Staged, logWrites staged (cs ++ ds) =
      logWrites staged cs ++ logWrites (logStaged staged cs) ds := by
  induction cs with
  | nil => exact fun _ => rfl
  | cons c cs ih =>
    intro staged
    rw [List.cons_append, logWrites, ih, logWrites, List.append_assoc]
    rfl

namespace RaftNode

/-- The store of an empty directory. -/
theorem freshStore_ok : Layout freshStore ∧ Durable freshStore ∧ freshStore.trace = [] ∧
    freshStore.pendingTxs = ∅ := by
  obtain ⟨sm, hopen, hfresh⟩ := openStore_empty (4 * 1024 * 1024)
  obtain rfl : freshStore = sm := Except.ok.inj (openStore_eq_freshStore.symm.trans hopen)
  exact hfresh

/-! ## One command -/

/-- A command on a store whose file operations succeed. -/
theorem applyToStore_ok {sm : StateMachine} (h : Layout sm) (unixMs : Nat) (c : Command) :
    ∃ sm', applyToStore unixMs c sm = (.ok (), sm') ∧ Writes sm sm' (c.writes sm.staged) ∧
      sm'.staged = c.stagedAfter sm.staged := by
  cases c with
  | set key value =>
    obtain ⟨sm', heq, hw, hp⟩ := set_ok h key value
    exact ⟨sm', heq, hw, staged_congr hp⟩
  | delete key =>
    obtain ⟨sm', heq, hw, hp⟩ := delete_ok h key
    exact ⟨sm', heq, hw, staged_congr hp⟩
  | beginTx txId ops => exact beginTx_ok h txId ops unixMs
  | decideTx txId decision => exact decideTx_ok h txId decision
  | _ => exact ⟨sm, rfl, Writes.refl h, rfl⟩

/-- `n'` is `n` after the commands `cs`. -/
structure Applied (cs : List Command) (n n' : RaftNode) : Prop where
  writes : Writes n.stateMachine n'.stateMachine (logWrites n.stateMachine.staged cs)
  staged : n'.stateMachine.staged = logStaged n.stateMachine.staged cs
  config : n'.currentConfig = logConfig n.currentConfig cs

theorem Applied.nil {n : RaftNode} (h : Layout n.stateMachine) : Applied [] n n :=
  ⟨Writes.refl h, rfl, rfl⟩

theorem Applied.trans {cs ds : List Command} {n n₁ n₂ : RaftNode} (h₁ : Applied cs n n₁)
    (h₂ : Applied ds n₁ n₂) : Applied (cs ++ ds) n n₂ := by
  refine ⟨?_, ?_, ?_⟩
  · rw [logWrites_append, ← h₁.staged]
    exact h₁.writes.trans h₂.writes
  · rw [h₂.staged, h₁.staged, logStaged_append]
  · rw [h₂.config, h₁.config, logConfig_append]

theorem applyStore_ok {n : RaftNode} (h : Layout n.stateMachine) (unixMs : Nat) {c : Command}
    (hc : ∀ config, c ≠ .installConfiguration config) :
    Applied [c] n (applyStore unixMs c n) := by
  obtain ⟨sm', heq, hw, hs⟩ := applyToStore_ok h unixMs c
  have hsm : (applyStore unixMs c n).stateMachine = sm' := by rw [applyStore, heq]
  refine ⟨?_, ?_, ?_⟩
  · rw [hsm, logWrites, logWrites, List.append_nil]
    exact hw
  · rw [hsm]
    exact hs
  · cases c <;> first | rfl | exact absurd rfl (hc _)

/-- Only the store, its transactions and the configuration count. -/
theorem Applied.of_config {n n' : RaftNode} {config : Configuration}
    (h : Layout n.stateMachine) (hsm : n'.stateMachine = n.stateMachine)
    (hconfig : n'.currentConfig = config) :
    Applied [.installConfiguration config] n n' := by
  refine ⟨?_, ?_, hconfig⟩
  · rw [hsm]
    exact Writes.refl h
  · rw [hsm]
    rfl

theorem installConfiguration_store (config : Configuration) (n : RaftNode) :
    (installConfiguration config n).stateMachine = n.stateMachine ∧
      (installConfiguration config n).currentConfig = config := by
  rw [installConfiguration]
  dsimp only
  split_ifs with hs
  · cases hpend : n.pendingPostJointSimple with
    | none => exact ⟨rfl, rfl⟩
    | some simpleNew =>
      dsimp only
      split_ifs with hmatch
      · constructor
        · rw [(appendEntry_proposed (by exact hs) _ rfl rfl).stateMachine]
        · rw [(appendEntry_proposed (by exact hs) _ rfl rfl).currentConfig]
      · exact ⟨rfl, rfl⟩
  · exact ⟨rfl, rfl⟩

/-- `apply_logs` on one command. -/
theorem applyCommand_ok {n : RaftNode} (h : Layout n.stateMachine) (unixMs : Nat)
    (c : Command) : Applied [c] n (applyCommand unixMs c n) := by
  cases c with
  | installConfiguration config =>
    obtain ⟨hsm, hconfig⟩ := installConfiguration_store config n
    exact Applied.of_config h hsm hconfig
  | _ => exact applyStore_ok h unixMs (by simp)

/-- `replay_logs` on one command. -/
theorem replayCommand_ok {n : RaftNode} (h : Layout n.stateMachine) (unixMs : Nat)
    (c : Command) : Applied [c] n (replayCommand unixMs c n) := by
  cases c with
  | installConfiguration config => exact Applied.of_config h rfl rfl
  | _ => exact applyStore_ok h unixMs (by simp)

/-! ## Lists of commands -/

/-- The commands of `cs`, one after the other, as the loop of `apply_logs`
applies them. -/
def applyCommands (clock : Clock) (cs : List Command) (n : RaftNode) : RaftNode :=
  cs.zipIdx.foldl (fun n c => applyCommand (clock.unixMs c.2) c.1 n) n

theorem foldl_ok {α : Type} (f : RaftNode → α → RaftNode) (command : α → Command)
    (hf : ∀ n a, Layout n.stateMachine → Applied [command a] n (f n a)) (xs : List α) :
    ∀ {n : RaftNode}, Layout n.stateMachine → Applied (xs.map command) n (xs.foldl f n) := by
  induction xs with
  | nil => exact fun h => Applied.nil h
  | cons x xs ih =>
    intro n h
    have hx := hf n x h
    exact hx.trans (ih hx.writes.layout)

theorem applyCommands_ok (clock : Clock) (cs : List Command) {n : RaftNode}
    (h : Layout n.stateMachine) : Applied cs n (applyCommands clock cs n) := by
  have happ := foldl_ok (fun n c => applyCommand (clock.unixMs c.2) c.1 n) Prod.fst
    (fun n c hn => applyCommand_ok hn _ _) cs.zipIdx h
  rwa [List.zipIdx_map_fst] at happ

/-- `replay_logs` applies every command of the log. -/
theorem replayLogs_ok (clock : Clock) {n : RaftNode} (h : Layout n.stateMachine) :
    Applied (n.log.map LogEntry.command) n (replayLogs clock n) := by
  have happ := foldl_ok (fun n e => replayCommand (clock.unixMs e.2) e.1.command n)
    (fun e => e.1.command) (fun n e hn => replayCommand_ok hn _ _) n.log.zipIdx h
  have hmap : n.log.zipIdx.map (fun e => e.1.command) = n.log.map LogEntry.command := by
    rw [← List.zipIdx_map_fst 0 n.log, List.map_map, List.zipIdx_map_fst]
    rfl
  rw [hmap] at happ
  exact ⟨happ.writes, happ.staged, happ.config⟩

end RaftNode

end OxideKv
