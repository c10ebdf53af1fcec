import OxideKv.Raft.SnapshotDelivery
import OxideKv.StateMachine.FaultyStore

/-!
# The vote of a follower that has caught up

The coordinator asks for votes on a `BeginTx` with the index and the term of
that entry as its `last_log_index` and `last_log_term`.  A follower compares
them with the last entry of its own log, as it does with a candidate.

The follower stages the transaction while it answers: it applies up to the
`BeginTx` at least (`applyLogs_reaches`), and nothing in its log takes the
transaction back (`logStaged_of_mem`).  None of this needs a file operation to
succeed.  What decides is the comparison: the vote is granted exactly when the
last entry of the follower is not above the `BeginTx` (`tx_vote_granted_iff`).
An entry that other clients have appended in the meantime costs the vote.
-/

namespace OxideKv

open Fallible StateMachine

/-! ## Transactions in flight, on a disk that may fail -/

namespace StateMachine

theorem writeRow_pendingTxs (row : String × Option String) (sm : StateMachine) :
    (writeRow row sm).2.pendingTxs = sm.pendingTxs := by
  exact congrArg (fun r => r.2.pendingTxs) (writeRow_pending sm.pendingTxs row sm)

theorem writeRows_pendingTxs (rows : List (String × Option String)) (sm : StateMachine) :
    (writeRows rows sm).pendingTxs = sm.pendingTxs := by
  have h : writeRows rows sm = withPending sm.pendingTxs (writeRows rows sm) :=
    writeRows_pending sm.pendingTxs rows sm
  rw [h]
  rfl

/-- A command stages what it says, also when its file operations fail. -/
theorem applyToStore_staged (unixMs : Nat) (c : Command) (sm : StateMachine) :
    (RaftNode.applyToStore unixMs c sm).2.staged = c.stagedAfter sm.staged := by
  cases c with
  | set key value => exact staged_congr (writeRow_pendingTxs (key, some value) sm)
  | delete key => exact staged_congr (writeRow_pendingTxs (key, none) sm)
  | beginTx txId ops => exact staged_insert sm txId _
  | decideTx txId decision =>
    show (decideTx txId decision sm).2.staged = Function.update sm.staged txId none
    rw [decideTx, bind_getThe]
    cases htx : sm.pendingTxs[txId]? with
    | none => exact staged_absent htx
    | some tx =>
      rw [← staged_erase]
      cases decision with
      | abort => rfl
      | commit =>
        have hops := forM_applyTxOp tx.ops { sm with pendingTxs := sm.pendingTxs.erase txId }
        dsimp only
        rw [bind_modify, hops]
        exact staged_congr (writeRows_pendingTxs _ _)
  | get | compact | abortTx | addNode | removeNode | installConfiguration => rfl

theorem isTxPending_iff (sm : StateMachine) (txId : String) :
    sm.isTxPending txId = true ↔ sm.staged txId ≠ none := by
  rw [isTxPending, staged, Std.TreeMap.contains_eq_isSome_getElem?, Option.isSome_iff_ne_none,
    ne_eq, ne_eq, Option.map_eq_none_iff]

end StateMachine

/-- A transaction that was begun and not decided is in flight. -/
theorem logStaged_of_mem {txId : String} {ops : List TxOp} :
    ∀ {cs : List Command} {staged : Staged}, (∀ d, Command.decideTx txId d ∉ cs) →
      (staged txId ≠ none ∨ Command.beginTx txId ops ∈ cs) → logStaged staged cs txId ≠ none
  | [], _, _, h => h.resolve_right List.not_mem_nil
  | c :: cs, staged, hnot, h => by
    have hrest : ∀ d, Command.decideTx txId d ∉ cs := fun d hd => hnot d (List.mem_cons_of_mem c hd)
    have hfirst : ∀ d, c ≠ .decideTx txId d := fun d hd => hnot d (hd ▸ List.mem_cons_self)
    show logStaged (c.stagedAfter staged) cs txId ≠ none
    apply logStaged_of_mem hrest
    rcases h with hstaged | hmem
    · left
      cases c with
      | beginTx id ops' =>
        show Function.update staged id (some ops') txId ≠ none
        rw [Function.update_apply]
        split <;> simp [hstaged]
      | decideTx id d =>
        have hid : txId ≠ id := fun heq => hfirst d (heq ▸ rfl)
        show Function.update staged id none txId ≠ none
        rw [Function.update_of_ne hid]
        exact hstaged
      | _ => exact hstaged
    · rcases List.mem_cons.mp hmem with rfl | hmem
      · left
        show Function.update staged txId (some ops) txId ≠ none
        simp
      · exact Or.inr hmem

namespace RaftNode

/-! ## What a follower applies -/

/-- The log stays, and the entries up to the new `last_applied` are staged. -/
structure Stages (n n' : RaftNode) : Prop where
  state : n'.state = n.state
  log : n'.log = n.log
  commitIndex : n'.commitIndex = n.commitIndex
  applied : n.lastApplied ≤ n'.lastApplied
  staged : n'.stateMachine.staged =
    logStaged n.stateMachine.staged (commandsOf (between n.lastApplied n'.lastApplied n.log))

theorem Stages.refl (n : RaftNode) : Stages n n := by
  refine ⟨rfl, rfl, rfl, le_rfl, ?_⟩
  rw [between_self]
  rfl

theorem applyCommand_follower {n : RaftNode} (hstate : n.state ≠ .leader) (unixMs : Nat)
    (c : Command) :
    (applyCommand unixMs c n).state = n.state ∧ (applyCommand unixMs c n).log = n.log ∧
      (applyCommand unixMs c n).commitIndex = n.commitIndex ∧
      (applyCommand unixMs c n).stateMachine.staged = c.stagedAfter n.stateMachine.staged := by
  cases c with
  | installConfiguration config =>
    have heq : installConfiguration config n =
        { n with currentConfig := config, peers := peersOf n.nodeId config } := by
      rw [installConfiguration]
      exact if_neg hstate
    show (installConfiguration config n).state = _ ∧ (installConfiguration config n).log = _ ∧
      (installConfiguration config n).commitIndex = _ ∧
      (installConfiguration config n).stateMachine.staged = _
    rw [heq]
    exact ⟨rfl, rfl, rfl, rfl⟩
  | _ => exact ⟨rfl, rfl, rfl, applyToStore_staged unixMs _ n.stateMachine⟩

theorem applyCommand_stages {n : RaftNode} (hstate : n.state ≠ .leader) (unixMs : Nat)
    {entry : LogEntry} (hget : n.log[n.lastApplied]? = some entry) :
    Stages n
      { applyCommand unixMs entry.command n with
        lastApplied := (applyCommand unixMs entry.command n).lastApplied + 1 } := by
  have happlied := applyCommand_lastApplied unixMs entry.command n
  obtain ⟨hstate', hlog, hcommit, hstaged⟩ := applyCommand_follower hstate unixMs entry.command
  refine ⟨hstate', hlog, hcommit, ?_, ?_⟩
  · show n.lastApplied ≤ (applyCommand unixMs entry.command n).lastApplied + 1
    omega
  · show _ = logStaged _ (commandsOf (between n.lastApplied
      ((applyCommand unixMs entry.command n).lastApplied + 1) n.log))
    rw [happlied, between_cons (by omega) hget, between_self]
    exact hstaged

theorem Stages.trans {n n₁ n₂ : RaftNode} (h : Stages n n₁) (h' : Stages n₁ n₂) : Stages n n₂ := by
  refine ⟨h'.state.trans h.state, h'.log.trans h.log, h'.commitIndex.trans h.commitIndex,
    h.applied.trans h'.applied, ?_⟩
  rw [h'.staged, h.staged, h.log, between_append n.log h.applied h'.applied, commandsOf_append,
    logStaged_append]

/-- The loop goes on up to the commit index or the end of the log. -/
theorem applyLoop_stages (clock : Clock) : ∀ (fuel : Nat) {n : RaftNode}, n.state ≠ .leader →
    n.commitIndex ≤ n.lastApplied + fuel →
      Stages n (applyLoop clock fuel n) ∧
        min n.commitIndex n.log.length ≤ (applyLoop clock fuel n).lastApplied
  | 0, n, _, hfuel => ⟨Stages.refl n, by show _ ≤ n.lastApplied; omega⟩
  | fuel + 1, n, hstate, hfuel => by
    rw [applyLoop]
    split
    case isTrue hlt =>
      cases hget : n.log[n.lastApplied]? with
      | none =>
        have hend := List.getElem?_eq_none_iff.mp hget
        exact ⟨Stages.refl n, by show _ ≤ n.lastApplied; omega⟩
      | some entry =>
        have hone := applyCommand_stages hstate (clock.unixMs n.lastApplied) hget
        have hnext : n.lastApplied + 1 ≤
            (applyCommand (clock.unixMs n.lastApplied) entry.command n).lastApplied + 1 := by
          rw [applyCommand_lastApplied]
        obtain ⟨hrest, hreach⟩ := applyLoop_stages clock fuel (n :=
          { applyCommand (clock.unixMs n.lastApplied) entry.command n with
            lastApplied :=
              (applyCommand (clock.unixMs n.lastApplied) entry.command n).lastApplied + 1 })
          (by rw [hone.state]; exact hstate)
          (by rw [hone.commitIndex]; show _ ≤ _ + 1 + fuel; omega)
        refine ⟨hone.trans hrest, ?_⟩
        rw [hone.commitIndex, hone.log] at hreach
        exact hreach
    case isFalse hge => exact ⟨Stages.refl n, by omega⟩

theorem applyLogs_stages (clock : Clock) {n : RaftNode} (hstate : n.state ≠ .leader) :
    Stages n (applyLogs clock n) ∧
      min n.commitIndex n.log.length ≤ (applyLogs clock n).lastApplied :=
  applyLoop_stages clock _ hstate (by omega)

/-- After the fast-forward to an entry of the log, that entry is applied. -/
theorem applyLogs_reaches (clock : Clock) {n : RaftNode} {index : Nat}
    (hstate : n.state ≠ .leader) (hindex : index ≤ n.log.length) :
    Stages { n with commitIndex := max n.commitIndex index }
        (applyLogs clock (fastForwardCommit index n)) ∧
      index ≤ (applyLogs clock (fastForwardCommit index n)).lastApplied := by
  have heq : fastForwardCommit index n = { n with commitIndex := max n.commitIndex index } := by
    unfold fastForwardCommit
    split_ifs with hlt
    · rw [Nat.max_eq_right (by omega)]
    · rw [Nat.max_eq_left (by omega)]
  obtain ⟨hstages, hreach⟩ := applyLogs_stages clock
    (n := { n with commitIndex := max n.commitIndex index }) hstate
  rw [heq]
  refine ⟨hstages, ?_⟩
  change min (max n.commitIndex index) n.log.length ≤ _ at hreach
  omega

/-! ## The vote -/

/-- The last entry of the log is not above an entry of this index and term. -/
def EndsBy (log : List LogEntry) (index term : Nat) : Prop :=
  ∀ last ∈ log.getLast?, last.term < term ∨ last.term = term ∧ last.index ≤ index

theorem logUpToDate_iff {n : RaftNode} {index term : Nat} (hne : n.log ≠ []) :
    n.logUpToDate index term = true ↔ EndsBy n.log index term := by
  rw [logUpToDate, getLastLogInfo, EndsBy, List.getLast?_eq_some_getLast hne]
  simp only [Option.mem_some_iff, forall_eq', Bool.or_eq_true, Bool.and_eq_true,
    decide_eq_true_eq, beq_iff_eq]
  rw [eq_comm (a := term)]

/-- A follower of the leader's term whose log is a part of the leader's, with
the `BeginTx` in it, grants its vote exactly when no newer entry is last. -/
theorem tx_vote_granted_iff (clock : Clock) {n f : RaftNode} {txId : String} {ops : List TxOp}
    {beginIndex : Nat} {e : LogEntry} (hpos : 0 < beginIndex)
    (hbegin : n.log[beginIndex - 1]? = some e) (hcommand : e.command = .beginTx txId ops)
    (hdecide : ∀ d, Command.decideTx txId d ∉ commandsOf n.log)
    (hterm : f.currentTerm = n.currentTerm) (hstate : f.state = .follower)
    (hpart : f.log <+: n.log) (hlen : beginIndex ≤ f.log.length)
    (hstaged : f.stateMachine.staged =
      logStaged Staged.none (commandsOf (f.log.take f.lastApplied))) :
    (handleTxVoteRequest clock ((n.txRound beginIndex).request txId) f).1.voteGranted = true ↔
      EndsBy f.log beginIndex e.term := by
  have hne : f.log ≠ [] := by
    rw [← List.length_pos_iff]
    omega
  have hbeginTerm : (n.txRound beginIndex).beginLogTerm = e.term := by
    show (if beginIndex = 0 then n.currentTerm
      else ((n.log[beginIndex - 1]?).map LogEntry.term).getD n.currentTerm) = e.term
    rw [if_neg (by omega), hbegin]
    rfl
  obtain ⟨hstages, hreach⟩ := applyLogs_reaches clock (n := f)
    (by rw [hstate]; decide) hlen
  set f' := applyLogs clock (fastForwardCommit beginIndex f)
  have hsplit : f.log.take f'.lastApplied =
      f.log.take f.lastApplied ++ between f.lastApplied f'.lastApplied f.log := by
    have h := between_append f.log (Nat.zero_le f.lastApplied) hstages.applied
    simpa only [between, List.drop_zero] using h
  have hpending : f'.stateMachine.isTxPending txId = true := by
    rw [isTxPending_iff, hstages.staged]
    show logStaged f.stateMachine.staged
      (commandsOf (between f.lastApplied f'.lastApplied f.log)) txId ≠ none
    rw [hstaged, ← logStaged_append, ← commandsOf_append, ← hsplit]
    have hnot : ∀ d, Command.decideTx txId d ∉ commandsOf (f.log.take f'.lastApplied) := by
      intro d hd
      apply hdecide d
      obtain ⟨entry, hentry, hd⟩ := List.mem_map.mp hd
      exact List.mem_map.mpr ⟨entry, hpart.subset (List.mem_of_mem_take hentry), hd⟩
    have hget : (f.log.take f'.lastApplied)[beginIndex - 1]? = some e := by
      have hsame := List.prefix_iff_getElem?.mp hpart (beginIndex - 1) (by omega)
      rw [List.getElem?_take_of_lt (by omega), List.getElem?_eq_getElem (by omega), ← hsame,
        hbegin]
    have hmem : Command.beginTx txId ops ∈ commandsOf (f.log.take f'.lastApplied) :=
      List.mem_map.mpr ⟨e, List.mem_of_getElem? hget, hcommand⟩
    exact logStaged_of_mem hnot (Or.inr hmem)
  rw [← logUpToDate_iff hne, ← hbeginTerm]
  unfold handleTxVoteRequest
  have hterm' : ((n.txRound beginIndex).request txId).term = f.currentTerm := hterm.symm
  rw [if_neg (by omega), if_neg (by omega)]
  cases hlog : f.logUpToDate beginIndex (n.txRound beginIndex).beginLogTerm with
  | false =>
    rw [if_pos (by rw [Bool.not_eq_true']; exact hlog)]
  | true =>
    rw [if_neg (by rw [Bool.not_eq_true', Bool.not_eq_false]; exact hlog)]
    show (if !f'.stateMachine.isTxPending txId then _ else _ : VoteResponse × RaftNode).1.voteGranted
      = true ↔ _
    rw [hpending]
    exact iff_of_true rfl rfl

/-- The write of another client follows the `BeginTx`. -/
def txLeader : RaftNode :=
  { freshNode "a" ["b"] with
    state := .leader
    currentTerm := 1
    log :=
      [{ term := 1, index := 1, command := .beginTx "t" [.put "k" "v"] },
        { term := 1, index := 2, command := .set "x" "1" }] }

/-- A follower that has the first entries of `txLeader`. -/
def txFollower (entries : Nat) : RaftNode :=
  { freshNode "b" ["a"] with currentTerm := 1, log := txLeader.log.take entries }

theorem tx_vote_granted_at_begin :
    (handleTxVoteRequest someClock ((txLeader.txRound 1).request "t")
        (txFollower 1)).1.voteGranted = true := by
  have hbegin : txLeader.log[1 - 1]? =
      some { term := 1, index := 1, command := .beginTx "t" [.put "k" "v"] } := rfl
  refine (tx_vote_granted_iff someClock (f := txFollower 1) (by decide) hbegin rfl ?_ rfl rfl
    (by decide) (by decide) rfl).mpr ?_
  · intro d
    cases d <;> decide
  · rw [EndsBy]
    decide

/-- The follower has both entries. -/
theorem tx_vote_refused_after_write :
    commandsOf txLeader.log = [.beginTx "t" [.put "k" "v"], .set "x" "1"] ∧
      (txFollower 2).currentTerm = txLeader.currentTerm ∧ (txFollower 2).state = .follower ∧
      (txFollower 2).log = txLeader.log ∧ (txFollower 2).lastApplied = 0 ∧
      (txFollower 2).stateMachine = freshStore ∧
      (handleTxVoteRequest someClock ((txLeader.txRound 1).request "t")
        (txFollower 2)).1.voteGranted = false :=
  ⟨rfl, rfl, rfl, rfl, rfl, rfl, by decide⟩

end RaftNode

end OxideKv
