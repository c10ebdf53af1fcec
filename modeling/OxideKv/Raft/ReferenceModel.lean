import OxideKv.Raft.Applying

/-!
# Three interpreters of one log

`reference_model.rs` is the oracle of the simulation: a plain map and the
staged transactions, with a match over the commands of its own.  The other two
interpreters are `apply_logs` and `replay_logs` of the node, which write to the
LSM store.

All three are read against the effect of the log (`logWrites`, `logStaged`).
`ReferenceModel.Holds` says that the oracle is at that effect, and
`applyEntries_holds` carries it through a log.  On a node that does not lead,
`apply_logs` and `replay_logs` are the same function
(`applyLogs_eq_replayLogs`), so what is left is that the clock does not show in
the result.
-/

namespace OxideKv

open Std (TreeMap)
open LastWrite StateMachine

/-- The sequential oracle of the simulation. -/
structure ReferenceModel where
  state : TreeMap String String
  pending : TreeMap String (List TxOp)
  /-- The log index of the entry to come. -/
  nextIndex : Nat

namespace ReferenceModel

def new : ReferenceModel := { state := ∅, pending := ∅, nextIndex := 1 }

/-- One operation of a committed transaction. -/
def applyTxOp (state : TreeMap String String) : TxOp → TreeMap String String
  | .put key value => state.insert key value
  | .delete key => state.erase key

/-- The match of `apply` over the commands. -/
def applyCommand (m : ReferenceModel) : Command → ReferenceModel
  | .set key value => { m with state := m.state.insert key value }
  | .delete key => { m with state := m.state.erase key }
  | .compact => m
  | .beginTx txId ops => { m with pending := m.pending.insert txId ops }
  | .decideTx txId decision =>
      match m.pending[txId]? with
      | none => m
      | some ops =>
          let m := { m with pending := m.pending.erase txId }
          match decision with
          | .commit => { m with state := ops.foldl applyTxOp m.state }
          | .abort => m
  | .get _ => m
  | .addNode _ => m
  | .removeNode _ => m
  | .installConfiguration _ => m
  | .abortTx _ => m

/-- `apply`: `false` when the entry is not the next one. -/
def apply (index : Nat) (command : Command) (m : ReferenceModel) : Bool × ReferenceModel :=
  if index < m.nextIndex then (false, m)
  else if m.nextIndex < index then (false, m)
  else (true, applyCommand { m with nextIndex := m.nextIndex + 1 } command)

/-- `apply` on the entries of a log, one after the other. -/
def applyEntries (log : List LogEntry) (m : ReferenceModel) : ReferenceModel :=
  log.foldl (fun m e => (apply e.index e.command m).2) m

/-! ## The oracle and the effect of the log -/

/-- The oracle holds the writes `ws` and the transactions `staged`. -/
structure Holds (m : ReferenceModel) (ws : List (String × Option String)) (staged : Staged) :
    Prop where
  state : ∀ key, m.state[key]? = lastWrite ws key
  pending : ∀ txId, m.pending[txId]? = staged txId

theorem new_holds : Holds new [] Staged.none :=
  ⟨fun _ => TreeMap.getElem?_emptyc, fun _ => TreeMap.getElem?_emptyc⟩

section Write

variable {ws : List (String × Option String)} {state : TreeMap String String}

theorem getElem?_insert_holds (h : ∀ key, state[key]? = lastWrite ws key) (key value k : String) :
    (state.insert key value)[k]? = lastWrite (ws ++ [(key, some value)]) k := by
  rw [TreeMap.getElem?_insert, lastWrite_append, record_singleton, h k]
  by_cases hk : key = k <;> simp [hk]

theorem getElem?_erase_holds (h : ∀ key, state[key]? = lastWrite ws key) (key k : String) :
    (state.erase key)[k]? = lastWrite (ws ++ [(key, none)]) k := by
  rw [TreeMap.getElem?_erase, lastWrite_append, record_singleton, h k]
  by_cases hk : key = k <;> simp [hk]

/-- The operations of a transaction, one after the other. -/
theorem getElem?_foldl_applyTxOp (ops : List TxOp) :
    ∀ {ws : List (String × Option String)} {state : TreeMap String String},
      (∀ key, state[key]? = lastWrite ws key) →
      ∀ k, (ops.foldl applyTxOp state)[k]? = lastWrite (ws ++ ops.map txOpWrite) k := by
  induction ops with
  | nil => simp
  | cons op ops ih =>
    intro ws state h k
    rw [List.foldl_cons, List.map_cons, ← List.singleton_append, ← List.append_assoc]
    refine ih (fun key => ?_) k
    cases op with
    | put key' value => exact getElem?_insert_holds h key' value key
    | delete key' => exact getElem?_erase_holds h key' key

end Write

/-- One command. -/
theorem Holds.applyCommand {m : ReferenceModel} {ws : List (String × Option String)}
    {staged : Staged} (h : Holds m ws staged) (c : Command) :
    Holds (m.applyCommand c) (ws ++ c.writes staged) (c.stagedAfter staged) := by
  have hnone : Holds m (ws ++ []) staged := by
    rw [List.append_nil]
    exact h
  cases c with
  | set key value => exact ⟨getElem?_insert_holds h.state key value, h.pending⟩
  | delete key => exact ⟨getElem?_erase_holds h.state key, h.pending⟩
  | beginTx txId ops =>
    refine ⟨hnone.state, fun id => ?_⟩
    show (m.pending.insert txId ops)[id]? = Function.update staged txId (some ops) id
    rw [TreeMap.getElem?_insert, Function.update_apply, h.pending id]
    by_cases hid : txId = id
    · simp [hid]
    · simp [hid, Ne.symm hid]
  | decideTx txId decision =>
    have hstaged := h.pending txId
    unfold ReferenceModel.applyCommand Command.writes Command.stagedAfter
    dsimp only
    cases hget : m.pending[txId]? with
    | none =>
      rw [hget] at hstaged
      have hsame : Function.update staged txId none = staged :=
        Function.update_eq_self_iff.mpr hstaged
      have hwrites : decisionWrites (staged txId) decision = [] := by
        rw [← hstaged]
        cases decision <;> rfl
      rw [hsame, hwrites]
      exact hnone
    | some ops =>
      rw [hget] at hstaged
      have herase : ∀ id, (m.pending.erase txId)[id]? = Function.update staged txId none id := by
        intro id
        rw [TreeMap.getElem?_erase, Function.update_apply, h.pending id]
        by_cases hid : txId = id
        · simp [hid]
        · simp [hid, Ne.symm hid]
      rw [← hstaged]
      cases decision with
      | commit => exact ⟨getElem?_foldl_applyTxOp ops h.state, herase⟩
      | abort => exact ⟨hnone.state, herase⟩
  | _ => exact hnone

theorem applyCommand_nextIndex (m : ReferenceModel) (c : Command) :
    (m.applyCommand c).nextIndex = m.nextIndex := by
  cases c with
  | decideTx txId decision =>
    unfold applyCommand
    dsimp only
    cases m.pending[txId]? with
    | none => rfl
    | some ops => cases decision <;> rfl
  | _ => rfl

/-- The entries of a log that is numbered from the next index on are all
applied. -/
theorem applyEntries_holds (log : List LogEntry) :
    ∀ {m : ReferenceModel} {ws : List (String × Option String)} {staged : Staged} {prev : Nat},
      NumberedAfter prev log → m.nextIndex = prev + 1 → Holds m ws staged →
      Holds (m.applyEntries log) (ws ++ logWrites staged (log.map LogEntry.command))
        (logStaged staged (log.map LogEntry.command)) := by
  induction log with
  | nil =>
    intro m ws staged prev _ _ h
    rw [List.map_nil, logWrites, List.append_nil]
    exact h
  | cons e log ih =>
    intro m ws staged prev hnum hnext h
    have hindex : e.index = m.nextIndex := by
      have := hnum 0 e rfl
      omega
    set m₁ : ReferenceModel := { m with nextIndex := m.nextIndex + 1 }
    have happly : (apply e.index e.command m).2 = m₁.applyCommand e.command := by
      rw [apply, if_neg (by omega), if_neg (by omega)]
    have h₁ : Holds m₁ ws staged := ⟨h.state, h.pending⟩
    have hrest := ih (NumberedAfter.tail hnum)
      (by rw [applyCommand_nextIndex]; exact congrArg (· + 1) hnext) (h₁.applyCommand e.command)
    rw [applyEntries, List.foldl_cons, happly, List.map_cons, logWrites, ← List.append_assoc]
    exact hrest

end ReferenceModel

namespace RaftNode

/-! ## `apply_logs` and `replay_logs` -/

/-- The second phase of a change is for the leader; any other node installs a
configuration as `replay_logs` does. -/
theorem applyCommand_eq_replayCommand {n : RaftNode} (h : n.state ≠ .leader) (unixMs : Nat)
    (c : Command) : applyCommand unixMs c n = replayCommand unixMs c n := by
  cases c with
  | installConfiguration config =>
    unfold applyCommand replayCommand installConfiguration
    dsimp only
    rw [if_neg h]
  | _ => rfl

/-- `replay_logs` does not look at `last_applied` on the way. -/
theorem foldl_replayCommand_lastApplied (clock : Clock) (entries : List (LogEntry × Nat))
    (k : Nat) :
    ∀ n : RaftNode,
      entries.foldl (fun n e => replayCommand (clock.unixMs e.2) e.1.command n)
          { n with lastApplied := k } =
        { entries.foldl (fun n e => replayCommand (clock.unixMs e.2) e.1.command n) n with
          lastApplied := k } := by
  induction entries with
  | nil => exact fun _ => rfl
  | cons e entries ih =>
    intro n
    rw [List.foldl_cons, List.foldl_cons, ← ih]
    congr 1
    cases e.1.command <;> rfl

/-- The loop of `apply_logs` to the end of the log, on a node that does not
lead. -/
theorem applyLoop_eq_foldl (clock : Clock) (fuel : Nat) :
    ∀ {n : RaftNode}, n.state ≠ .leader → n.commitIndex = n.log.length →
      n.lastApplied ≤ n.log.length → fuel = n.log.length - n.lastApplied →
      applyLoop clock fuel n =
        { ((n.log.drop n.lastApplied).zipIdx n.lastApplied).foldl
            (fun n e => replayCommand (clock.unixMs e.2) e.1.command n) n with
          lastApplied := n.log.length } := by
  induction fuel with
  | zero =>
    intro n _ _ hle hfuel
    have heq : n.lastApplied = n.log.length := by omega
    rw [heq, List.drop_length, List.zipIdx_nil, List.foldl_nil, applyLoop, ← heq]
  | succ fuel ih =>
    intro n hstate hcommit hle hfuel
    have hlt : n.lastApplied < n.log.length := by omega
    unfold applyLoop
    rw [if_pos (by omega), List.getElem?_eq_getElem hlt]
    dsimp only
    rw [applyCommand_eq_replayCommand hstate, List.drop_eq_getElem_cons hlt, List.zipIdx_cons,
      List.foldl_cons]
    obtain ⟨sm, config, peers, heq⟩ :=
      replayCommand_eq (clock.unixMs n.lastApplied) n.log[n.lastApplied].command n
    rw [heq]
    dsimp only
    set n₁ : RaftNode := { n with stateMachine := sm, currentConfig := config, peers := peers }
    have hrest := @ih { n₁ with lastApplied := n.lastApplied + 1 } hstate hcommit hlt
      (by show fuel = n.log.length - (n.lastApplied + 1); omega)
    rw [foldl_replayCommand_lastApplied] at hrest
    exact hrest

/-- On a node that does not lead and has applied nothing, `apply_logs` up to
the end of the log is `replay_logs`. -/
theorem applyLogs_eq_replayLogs (clock : Clock) {n : RaftNode} (hstate : n.state ≠ .leader)
    (happlied : n.lastApplied = 0) (hcommit : n.commitIndex = n.log.length) :
    applyLogs clock n = replayLogs clock n := by
  unfold applyLogs replayLogs
  rw [applyLoop_eq_foldl clock _ hstate hcommit (by omega) (by omega), happlied, List.drop_zero]

/-- The configuration and the dial list after a command. -/
def membershipAfter (nodeId : String) (m : Configuration × List String) :
    Command → Configuration × List String
  | .installConfiguration config => (config, peersOf nodeId config)
  | _ => m

/-- The configuration and the dial list are a function of the log. -/
theorem replayLogs_membership (clock : Clock) (n : RaftNode) :
    ((replayLogs clock n).currentConfig, (replayLogs clock n).peers) =
      (n.log.map LogEntry.command).foldl (membershipAfter n.nodeId) (n.currentConfig, n.peers) := by
  have hfold : ∀ (log : List LogEntry) (i : Nat) (n : RaftNode),
      (((log.zipIdx i).foldl
          (fun n e => replayCommand (clock.unixMs e.2) e.1.command n) n).currentConfig,
        ((log.zipIdx i).foldl
          (fun n e => replayCommand (clock.unixMs e.2) e.1.command n) n).peers) =
        (log.map LogEntry.command).foldl (membershipAfter n.nodeId)
          (n.currentConfig, n.peers) := by
    intro log
    induction log with
    | nil => exact fun _ _ => rfl
    | cons e log ih =>
      intro i n
      obtain ⟨sm, config, peers, heq⟩ := replayCommand_eq (clock.unixMs i) e.command n
      have hnode : (replayCommand (clock.unixMs i) e.command n).nodeId = n.nodeId := by rw [heq]
      rw [List.zipIdx_cons, List.foldl_cons, ih, List.map_cons, List.foldl_cons, hnode]
      congr 1
      cases e.command <;> rfl
  exact hfold n.log 0 n

/-- A node on an empty directory that replays its log is at the effect of the
log. -/
theorem replayLogs_effect (clock : Clock) {threshold : Nat} {n : RaftNode}
    (hstore : openStore threshold Disk.empty = .ok n.stateMachine) :
    Layout (replayLogs clock n).stateMachine ∧
      (∀ key, (replayLogs clock n).stateMachine.contents key =
        lastWrite (logWrites Staged.none (n.log.map LogEntry.command)) key) ∧
      (replayLogs clock n).stateMachine.staged =
        logStaged Staged.none (n.log.map LogEntry.command) := by
  obtain ⟨sm, hopen, hlayout, -, htrace, hpend⟩ := openStore_empty threshold
  obtain rfl : n.stateMachine = sm := Except.ok.inj (hstore.symm.trans hopen)
  have happ := replayLogs_ok clock hlayout
  have hstaged : n.stateMachine.staged = Staged.none := staged_of_empty hpend
  refine ⟨happ.writes.layout, fun key => ?_, ?_⟩
  · rw [happ.writes.contents key, htrace, List.nil_append, hstaged]
  · rw [happ.staged, hstaged]

/-- The three interpreters of a log agree: on the data, on the transactions in
flight and their operations, and the two of the node on the configuration, the
dial list and `last_applied`.  The two runs of the node may read different
clocks. -/
theorem interpreters_agree (clock clock' : Clock) {threshold : Nat} {n : RaftNode}
    (hstore : openStore threshold Disk.empty = .ok n.stateMachine) (hnum : Numbered n.log)
    (hstate : n.state = .follower) (happlied : n.lastApplied = 0)
    (hcommit : n.commitIndex = n.log.length) :
    (∃ replayed applied,
      (replayLogs clock n).stateMachine.snapshotData = .ok replayed ∧
      (applyLogs clock' n).stateMachine.snapshotData = .ok applied ∧
      ∀ key : String, replayed[key]? = applied[key]? ∧
        replayed[key]? = (ReferenceModel.new.applyEntries n.log).state[key]?) ∧
    (∀ txId, (replayLogs clock n).stateMachine.staged txId =
        (applyLogs clock' n).stateMachine.staged txId ∧
      (replayLogs clock n).stateMachine.staged txId =
        (ReferenceModel.new.applyEntries n.log).pending[txId]?) ∧
    (replayLogs clock n).currentConfig = (applyLogs clock' n).currentConfig ∧
    (replayLogs clock n).peers = (applyLogs clock' n).peers ∧
    (replayLogs clock n).lastApplied = (applyLogs clock' n).lastApplied := by
  rw [applyLogs_eq_replayLogs clock' (by rw [hstate]; simp) happlied hcommit]
  have hmodel := @ReferenceModel.applyEntries_holds n.log _ _ _ 0
    (fun i e hi => by rw [hnum i e hi, Nat.zero_add]) rfl ReferenceModel.new_holds
  rw [List.nil_append] at hmodel
  obtain ⟨hlayout, hcontents, hstaged⟩ := replayLogs_effect clock hstore
  obtain ⟨hlayout', hcontents', hstaged'⟩ := replayLogs_effect clock' hstore
  obtain ⟨replayed, hreplayed, hget⟩ := snapshotData_ok hlayout
  obtain ⟨applied, happlied', hget'⟩ := snapshotData_ok hlayout'
  have hmember := (replayLogs_membership clock n).trans (replayLogs_membership clock' n).symm
  refine ⟨⟨replayed, applied, hreplayed, happlied', fun key => ⟨?_, ?_⟩⟩,
    fun txId => ⟨?_, ?_⟩, congrArg Prod.fst hmember, congrArg Prod.snd hmember, rfl⟩
  · rw [hget key, hget' key, hcontents key, hcontents' key]
  · rw [hget key, hcontents key, hmodel.state key]
  · rw [hstaged, hstaged']
  · rw [hstaged, hmodel.pending txId]

/-- A follower with a log in which a transaction is defined twice, an unknown
one is decided and the configuration changes. -/
def redefinedTx : RaftNode :=
  let log : List LogEntry :=
    [⟨1, 1, .set "k" "0"⟩, ⟨1, 2, .beginTx "t" [.put "k" "1"]⟩,
      ⟨1, 3, .beginTx "t" [.put "k" "2", .delete "k", .put "j" "3"]⟩, ⟨2, 4, .decideTx "u" .commit⟩,
      ⟨2, 5, .decideTx "t" .commit⟩, ⟨2, 6, .beginTx "u" [.delete "j"]⟩,
      ⟨2, 7, .installConfiguration (.simple [serverAt "a", serverAt "c"])⟩]
  { freshNode "a" ["b"] with log := log, commitIndex := log.length }

theorem interpreters_agree_redefinedTx :
    (∃ replayed applied,
      (replayLogs someClock redefinedTx).stateMachine.snapshotData = .ok replayed ∧
      (applyLogs someClock redefinedTx).stateMachine.snapshotData = .ok applied ∧
      ∀ key : String, replayed[key]? = applied[key]? ∧
        replayed[key]? = (ReferenceModel.new.applyEntries redefinedTx.log).state[key]?) ∧
    (ReferenceModel.new.applyEntries redefinedTx.log).state["k"]? = none ∧
    (ReferenceModel.new.applyEntries redefinedTx.log).state["j"]? = some "3" ∧
    (replayLogs someClock redefinedTx).peers = (applyLogs someClock redefinedTx).peers := by
  have hnum : Numbered redefinedTx.log := by decide
  have hagree := interpreters_agree someClock someClock openStore_eq_freshStore hnum rfl rfl rfl
  exact ⟨hagree.1, by decide, by decide, hagree.2.2.2.1⟩

end RaftNode

end OxideKv
