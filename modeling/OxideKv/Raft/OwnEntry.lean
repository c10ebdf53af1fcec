import OxideKv.Raft.Applying
import OxideKv.Raft.MembershipChange

/-!
# The entry of a proposal that is waited for

`propose_and_wait_for_apply` of `coordinator.rs`, with everything that can
happen to the node between two turns of its loop.  The loop looks at the role
and at two indices, and not at the entry: while it sleeps the node can lose
the lead, have the entry overwritten and get the lead back.

* `ApplyWait`: the call, and the entries that the node applies meanwhile.
* `KeepsFirst`: the calls that leave the first entries of the log in place.
* `own_entry_applied`: such calls on the way, the call returns the index at
  which its own entry was applied.
-/

namespace OxideKv

open Run

inductive WaitPhase where
  /-- The loop, for the entry at `index`. -/
  | waiting (index : Nat)
  | returned (result : Except String Nat)
deriving DecidableEq

/-- A call of `propose_and_wait_for_apply` on `node`.  `applied` are the
entries that the node has applied since the call began, each with the index it
was applied at. -/
structure ApplyWait where
  node : RaftNode
  phase : WaitPhase
  applied : List (LogEntry × Nat) := []

inductive WaitEvent where
  /-- Another call gets the lock of the node. -/
  | node (e : NodeEvent)
  /-- A turn of the loop.  `expired` says that the bound has elapsed. -/
  | poll (expired : Bool)

namespace RaftNode

/-- The first critical section of `propose_and_wait_for_apply`. -/
def proposeAndWaitForApply (command : Command) (n : RaftNode) : ApplyWait :=
  if n.state ≠ .leader then
    { node := n, phase := .returned (.error "not leader at propose time") }
  else
    match n.propose command with
    | (false, n) => { node := n, phase := .returned (.error "propose rejected") }
    | (true, n) => { node := n, phase := .waiting n.log.length }

/-- The entries that a call applies.  A snapshot that is installed moves
`last_applied` without applying an entry. -/
def appliedBy (e : NodeEvent) (n n' : RaftNode) : List (LogEntry × Nat) :=
  if e.isSnapshot then []
  else (between n.lastApplied n'.lastApplied n'.log).zipIdx (n.lastApplied + 1)

end RaftNode

namespace ApplyWait

open RaftNode

/-- The call `e` has left the node `n'`. -/
def afterCall (e : NodeEvent) (n' : RaftNode) (w : ApplyWait) : ApplyWait :=
  { w with node := n', applied := w.applied ++ appliedBy e w.node n' }

def step (w : ApplyWait) : WaitEvent → Option ApplyWait
  | .node e => (w.node.step e).map fun n' => w.afterCall e n'
  | .poll expired =>
      match w.phase with
      | .returned _ => none
      | .waiting index =>
          match w.node.pollApply "index" index expired with
          | .ready => some { w with phase := .returned (.ok index) }
          | .failed reason => some { w with phase := .returned (.error reason) }
          | .pending => some w

/-- The entries that the node has applied at `index`. -/
def appliedAt (index : Nat) (w : ApplyWait) : List LogEntry :=
  (w.applied.filter (fun p => p.2 == index)).map Prod.fst

end ApplyWait

namespace RaftNode

/-- The call leaves the first `count` entries of the log in place: an
`AppendEntries` that is merged has no entry of another term for them, and a
snapshot that is installed ends before every one of them. -/
def KeepsFirst (count : Nat) (n : RaftNode) : NodeEvent → Prop
  | .appendEntries _ args =>
      n.Accepts args.term → prevLogMatches args n = true →
        ∀ entry ∈ args.entries, usizePred entry.index < count →
          (n.log[usizePred entry.index]?).map LogEntry.term = some entry.term
  | .installSnapshot _ args =>
      n.Accepts args.term → ∀ entry ∈ n.log.take count, args.lastIncludedIndex < entry.index
  | _ => True

instance (count : Nat) (n : RaftNode) (e : NodeEvent) : Decidable (n.KeepsFirst count e) :=
  decidable_of_iff
    ((match e with
      | .appendEntries _ args =>
          decide (n.Accepts args.term → prevLogMatches args n = true →
            ∀ entry ∈ args.entries, usizePred entry.index < count →
              (n.log[usizePred entry.index]?).map LogEntry.term = some entry.term)
      | .installSnapshot _ args =>
          decide (n.Accepts args.term →
            ∀ entry ∈ n.log.take count, args.lastIncludedIndex < entry.index)
      | _ => true) = true) (by cases e <;> simp only [KeepsFirst, decide_eq_true_eq])

end RaftNode

/-- The entry that is waited for stays in place until it is applied. -/
def ApplyWait.KeepsOwn (w : ApplyWait) : WaitEvent → Prop
  | .node e =>
      match w.phase with
      | .waiting index => w.node.lastApplied < index → w.node.KeepsFirst index e
      | .returned _ => True
  | .poll _ => True

instance (w : ApplyWait) : (e : WaitEvent) → Decidable (w.KeepsOwn e)
  | .node e =>
      decidable_of_iff
        ((match w.phase with
          | .waiting index => decide (w.node.lastApplied < index → w.node.KeepsFirst index e)
          | .returned _ => true) = true) <| by
        unfold ApplyWait.KeepsOwn
        cases w.phase <;> simp only [decide_eq_true_eq]
  | .poll _ => .isTrue trivial

namespace RaftNode

/-! ## The log that a call leaves -/

section Logs

variable {n n' : RaftNode}

theorem stepDown_log (term : Nat) (n : RaftNode) : (stepDown term n).log = n.log := by
  obtain ⟨storage, -, -, -, heq⟩ := stepDown_eq term n
  rw [heq]

theorem maybeCommit_isPrefix (clock : Clock) (n : RaftNode) :
    n.log <+: (maybeCommit clock n).log := by
  obtain ⟨c, -, hext⟩ := maybeCommit_extends clock n
  exact hext.isPrefix

theorem handleTxVoteRequest_isPrefix (clock : Clock) (req : VoteRequest) (n : RaftNode) :
    n.log <+: (handleTxVoteRequest clock req n).2.log := by
  have happly : n.log <+: (applyLogs clock (fastForwardCommit req.lastLogIndex n)).log := by
    have hext := applyLogs_extends clock (fastForwardCommit req.lastLogIndex n)
    rcases fastForwardCommit_eq req.lastLogIndex n with heq | ⟨-, -, heq⟩ <;> rw [heq] at hext ⊢
    · exact hext.isPrefix
    · exact hext.isPrefix
  rcases handleTxVoteRequest_cases clock req n with heq | ⟨-, heq⟩ | ⟨-, -, heq | heq⟩ <;> rw [heq]
  · rw [stepDown_log]
  · exact happly
  · exact happly

/-- One turn of the loop of `handle_append_entries` leaves the first entries
in place. -/
theorem mergeLog_take {log : List LogEntry} {count : Nat} {entry : LogEntry}
    (hkeep : usizePred entry.index < count →
      (log[usizePred entry.index]?).map LogEntry.term = some entry.term) :
    log.take count <+: mergeLog log entry := by
  unfold mergeLog
  cases hown : log[usizePred entry.index]? with
  | none => exact (List.take_prefix count log).trans (List.prefix_append log [entry])
  | some own =>
    dsimp only
    split_ifs with hterm
    · have hge : count ≤ usizePred entry.index := by
        by_contra hlt
        have hsame := hkeep (Nat.lt_of_not_le hlt)
        rw [hown, Option.map_some] at hsame
        exact hterm (Option.some.inj hsame)
      exact (List.take_prefix_take_left hge).trans (List.prefix_append _ [entry])
    · exact List.take_prefix count log

theorem foldl_mergeLog_take {count : Nat} (entries : List LogEntry) :
    ∀ {log : List LogEntry}, count ≤ log.length →
      (∀ entry ∈ entries, usizePred entry.index < count →
        (log[usizePred entry.index]?).map LogEntry.term = some entry.term) →
      log.take count <+: entries.foldl mergeLog log := by
  induction entries with
  | nil => exact fun _ _ => List.take_prefix count _
  | cons entry entries ih =>
    intro log hlen hkeep
    have hfirst := mergeLog_take (hkeep entry (by simp))
    have htake : (mergeLog log entry).take count = log.take count := by
      have := List.prefix_iff_eq_take.mp hfirst
      rw [List.length_take, Nat.min_eq_left hlen] at this
      exact this.symm
    have hlen' : count ≤ (mergeLog log entry).length := by
      have := hfirst.length_le
      rw [List.length_take] at this
      omega
    rw [List.foldl_cons, ← htake]
    refine ih hlen' fun e he hlt => ?_
    have hget : (mergeLog log entry)[usizePred e.index]? = log[usizePred e.index]? := by
      rw [← List.getElem?_take_of_lt hlt, htake, List.getElem?_take_of_lt hlt]
    rw [hget]
    exact hkeep e (by simp [he]) hlt

theorem handleAppendEntries_take {count : Nat} (clock : Clock) (args : AppendEntriesArgs)
    (hlen : count ≤ n.log.length) (hkeep : n.KeepsFirst count (.appendEntries clock args)) :
    n.log.take count <+: (handleAppendEntries clock args n).2.log := by
  rcases handleAppendEntries_cases clock args n with
    ⟨_, heq⟩ | ⟨hacc, ⟨_, heq⟩ | ⟨hprev, heq⟩⟩ <;> rw [heq]
  · exact List.take_prefix count n.log
  · obtain ⟨storage, -, -, -, hfollow⟩ := followLeader_eq clock hacc.1
    rw [hfollow]
    exact List.take_prefix count n.log
  · obtain ⟨storage, -, -, -, hfollow⟩ := followLeader_eq clock hacc.1
    obtain ⟨storage', -, -, hmerge⟩ :=
      foldl_mergeEntry_eq args.entries (followLeader clock args.term n)
    have hfold := foldl_mergeLog_take args.entries hlen (hkeep hacc hprev)
    have hmerged : (args.entries.foldl mergeEntry (followLeader clock args.term n)).log =
        args.entries.foldl mergeLog n.log := by
      rw [hmerge, hfollow]
    have hcommit := (followCommit_extends clock args.leaderCommit
      (args.entries.foldl mergeEntry (followLeader clock args.term n))).isPrefix
    rw [← hmerged] at hfold
    exact hfold.trans hcommit

/-- What an accepted snapshot does to the log and to `last_applied`. -/
theorem handleInstallSnapshot_log {clock : Clock} {args : InstallSnapshotArgs}
    {r : InstallSnapshotReplyArgs × RaftNode} (hr : handleInstallSnapshot clock args n = some r) :
    ¬n.Accepts args.term ∧ r.2 = n ∨
      n.Accepts args.term ∧
        r.2.log = n.log.filter (fun e => args.lastIncludedIndex < e.index) ∧
        r.2.lastApplied = max n.lastApplied args.lastIncludedIndex := by
  rcases handleInstallSnapshot_cases hr with hrefused | ⟨hacc, sm, heq⟩
  · exact Or.inl hrefused
  · obtain ⟨storage, -, -, -, hadopt⟩ := adoptNewer_eq hacc.1
    rw [hadopt] at heq
    exact Or.inr ⟨hacc, by rw [heq], by rw [heq]⟩

/-- What a snapshot does not cover stays in place. -/
theorem handleInstallSnapshot_take {count : Nat} {clock : Clock} {args : InstallSnapshotArgs}
    {r : InstallSnapshotReplyArgs × RaftNode} (hr : handleInstallSnapshot clock args n = some r)
    (hkeep : n.KeepsFirst count (.installSnapshot clock args)) :
    n.log.take count <+: r.2.log := by
  rcases handleInstallSnapshot_log hr with ⟨-, heq⟩ | ⟨hacc, hlog, -⟩
  · rw [heq]
    exact List.take_prefix count n.log
  · have hall : (n.log.take count).filter (fun e => args.lastIncludedIndex < e.index) =
        n.log.take count := by
      rw [List.filter_eq_self]
      intro entry hentry
      simpa using hkeep hacc entry hentry
    rw [hlog, ← List.take_append_drop count n.log, List.filter_append, List.take_append_drop, hall]
    exact List.prefix_append _ _

/-- A call that leaves the first entries in place. -/
theorem step_take {count : Nat} {e : NodeEvent} (hlen : count ≤ n.log.length)
    (hkeep : n.KeepsFirst count e) (hstep : n.step e = some n') :
    n.log.take count <+: n'.log := by
  have htake := List.take_prefix count n.log
  cases e with
  | appendEntries clock args =>
    obtain rfl := Option.some.inj hstep
    exact handleAppendEntries_take clock args hlen hkeep
  | installSnapshot clock args =>
    obtain ⟨r, hr, rfl⟩ := Option.map_eq_some_iff.mp hstep
    exact handleInstallSnapshot_take hr hkeep
  | maybeSnapshot thresholdBytes =>
    obtain ⟨r, hr, rfl⟩ := Option.map_eq_some_iff.mp hstep
    rcases maybeSnapshot_cases hr with rfl | ⟨-, data, storage, -, heq, -⟩
    · exact htake
    · rw [heq]
      exact htake
  | propose | proposeBatch | proposeAddNode | proposeRemoveNode | proposeAbortTx =>
    exact htake.trans (step_proposed hstep rfl).toExtends.isPrefix
  | requestVote | preVote | becomeCandidate | enterPreVote | preVoteAlone | preVoteStale
  | preVoteQuorum | voteQuorum | voteRefused | coordinatorStepDown =>
    obtain ⟨storage, -, -, -, _, _, _, _, _, rfl⟩ := step_roleMoved hstep rfl
    exact htake
  | txVoteRequest clock req =>
    obtain rfl := Option.some.inj hstep
    exact htake.trans (handleTxVoteRequest_isPrefix clock req n)
  | syncAlone clock =>
    obtain rfl := Option.some.inj hstep
    unfold syncAlone
    split_ifs
    · exact htake.trans (maybeCommit_isPrefix clock n)
    · exact htake
  | appendReply clock peer args reply =>
    obtain rfl := Option.some.inj hstep
    unfold appendReply
    dsimp only
    split_ifs
    · have hcommit := maybeCommit_isPrefix clock
        { n with
          lastQuorumHeartbeatAt := some clock.now
          matchIndex := insertIndex n.matchIndex peer (args.prevLogIndex + args.entries.length)
          nextIndex :=
            insertIndex n.nextIndex peer (args.prevLogIndex + args.entries.length + 1) }
      exact htake.trans hcommit
    · rw [stepDown_log]
      exact htake
    · exact htake
    · exact htake

/-- `last_applied` never goes back. -/
theorem step_lastApplied_le {e : NodeEvent} (hstep : n.step e = some n') :
    n.lastApplied ≤ n'.lastApplied := by
  cases hsnap : e.isSnapshot with
  | false => exact (step_consumes hsnap hstep).applied
  | true =>
    cases e with
    | installSnapshot clock args =>
      obtain ⟨r, hr, rfl⟩ := Option.map_eq_some_iff.mp hstep
      rcases handleInstallSnapshot_log hr with ⟨-, heq⟩ | ⟨-, -, happlied⟩
      · rw [heq]
      · omega
    | maybeSnapshot thresholdBytes =>
      obtain ⟨r, hr, rfl⟩ := Option.map_eq_some_iff.mp hstep
      rcases maybeSnapshot_cases hr with rfl | ⟨-, data, storage, -, heq, -⟩
      · exact le_rfl
      · rw [heq]
    | _ => cases hsnap

/-- A snapshot does not move `last_applied` past an entry that it leaves in
place. -/
theorem step_snapshot_lastApplied {own : LogEntry} {e : NodeEvent} (hsnap : e.isSnapshot = true)
    (hpos : 0 < own.index) (hown : n.log[own.index - 1]? = some own)
    (hlt : n.lastApplied < own.index) (hkeep : n.KeepsFirst own.index e)
    (hstep : n.step e = some n') : n'.lastApplied < own.index := by
  cases e with
  | installSnapshot clock args =>
    obtain ⟨r, hr, rfl⟩ := Option.map_eq_some_iff.mp hstep
    rcases handleInstallSnapshot_log hr with ⟨-, heq⟩ | ⟨hacc, -, happlied⟩
    · rw [heq]
      exact hlt
    · have hmem : own ∈ n.log.take own.index := by
        apply List.mem_of_getElem? (i := own.index - 1)
        rw [List.getElem?_take_of_lt (by omega)]
        exact hown
      have := hkeep hacc own hmem
      omega
  | maybeSnapshot thresholdBytes =>
    obtain ⟨r, hr, rfl⟩ := Option.map_eq_some_iff.mp hstep
    rcases maybeSnapshot_cases hr with rfl | ⟨-, data, storage, -, heq, -⟩
    · exact hlt
    · rw [heq]
      exact hlt
  | _ => cases hsnap

end Logs

/-! ## The entries that a call applies -/

/-- The entry with the number `i` of a list that is numbered from `k` on. -/
theorem filter_zipIdx {α : Type} (i : Nat) (l : List α) : ∀ k : Nat,
    ((l.zipIdx k).filter (fun p => p.2 == i)).map Prod.fst =
      if k ≤ i then (l[i - k]?).toList else [] := by
  induction l with
  | nil => intro k; simp
  | cons a l ih =>
    intro k
    rw [List.zipIdx_cons, List.filter_cons]
    rcases Nat.lt_trichotomy k i with hlt | rfl | hgt
    · have hsub : i - k = i - (k + 1) + 1 := by omega
      have hne : (k == i) = false := by simp; omega
      rw [hne, if_neg (by simp), ih, if_pos (by omega), if_pos (by omega), hsub,
        List.getElem?_cons_succ]
    · rw [if_pos (by simp), List.map_cons, ih, if_neg (by omega), if_pos (by omega)]
      simp
    · have hne : (k == i) = false := by simp; omega
      rw [hne, if_neg (by simp), ih, if_neg (by omega), if_neg (by omega)]

theorem between_getElem? (lo hi i : Nat) (log : List LogEntry) :
    (between lo hi log)[i]? = if lo + i < hi then log[lo + i]? else none := by
  unfold between
  rw [List.getElem?_drop, List.getElem?_take]

/-- A call other than a snapshot applies at `index` what the log has there. -/
theorem appliedBy_at {e : NodeEvent} (he : e.isSnapshot = false) (index : Nat)
    (n n' : RaftNode) :
    ((appliedBy e n n').filter (fun p => p.2 == index)).map Prod.fst =
      if n.lastApplied < index ∧ index ≤ n'.lastApplied then (n'.log[index - 1]?).toList
      else [] := by
  unfold appliedBy
  rw [he, if_neg (by simp), filter_zipIdx]
  by_cases hlt : n.lastApplied < index
  · have hsum : n.lastApplied + (index - (n.lastApplied + 1)) = index - 1 := by omega
    rw [if_pos (by omega), between_getElem?, hsum]
    by_cases hle : index ≤ n'.lastApplied
    · rw [if_pos (by omega), if_pos ⟨hlt, hle⟩]
    · rw [if_neg (by omega), if_neg (by omega)]
      rfl
  · rw [if_neg (by omega), if_neg (by omega)]

theorem appliedBy_snapshot {e : NodeEvent} (he : e.isSnapshot = true) (n n' : RaftNode) :
    appliedBy e n n' = [] := by
  unfold appliedBy
  rw [if_pos he]

/-- The entries, without their indices. -/
theorem appliedBy_entries {e : NodeEvent} (he : e.isSnapshot = false) (n n' : RaftNode) :
    (appliedBy e n n').map Prod.fst = between n.lastApplied n'.lastApplied n'.log := by
  unfold appliedBy
  rw [he, if_neg (by simp), List.zipIdx_map_fst]

end RaftNode

namespace ApplyWait

open RaftNode

variable {w w' : ApplyWait}

/-- What the log of `applied` entries says is what the store went through. -/
theorem step_applied {e : WaitEvent} (he : ∀ c, e = .node c → c.isSnapshot = false)
    (hlayout : StateMachine.Layout w.node.stateMachine) (hstep : w.step e = some w') :
    ∃ more, w'.applied = w.applied ++ more ∧
      Applied (more.map fun p => p.1.command) w.node w'.node := by
  cases e with
  | node c =>
    obtain ⟨n', hn', rfl⟩ := Option.map_eq_some_iff.mp hstep
    have hplain := he c rfl
    refine ⟨_, rfl, ?_⟩
    have hcommands : (appliedBy c w.node n').map (fun p => p.1.command) =
        (between w.node.lastApplied n'.lastApplied n'.log).map LogEntry.command := by
      rw [← appliedBy_entries hplain, List.map_map]
      rfl
    rw [hcommands]
    exact (step_consumes hplain hn').store hlayout
  | poll expired =>
    have hsame : w'.applied = w.applied ∧ w'.node = w.node := by
      unfold step at hstep
      dsimp only at hstep
      split at hstep
      · cases hstep
      · split at hstep <;> obtain rfl := Option.some.inj hstep <;> exact ⟨rfl, rfl⟩
    refine ⟨[], by rw [hsame.1, List.append_nil], ?_⟩
    rw [hsame.2]
    exact .nil hlayout

/-- Over a run without snapshots the store has seen the commands of `applied`,
in this order, and nothing else. -/
theorem run_applied {es : List WaitEvent} :
    ∀ {w : ApplyWait}, (∀ c, .node c ∈ es → c.isSnapshot = false) →
      StateMachine.Layout w.node.stateMachine → run step w es = some w' →
      ∃ more, w'.applied = w.applied ++ more ∧
        Applied (more.map fun p => p.1.command) w.node w'.node := by
  induction es with
  | nil =>
    intro w _ hlayout hrun
    obtain rfl := Option.some.inj hrun
    exact ⟨[], by simp, .nil hlayout⟩
  | cons e es ih =>
    intro w hplain hlayout hrun
    obtain ⟨t, hstep, hrest⟩ := run_cons_eq_some.mp hrun
    obtain ⟨more, hmore, happ⟩ :=
      step_applied (fun c hc => hplain c (by simp [hc])) hlayout hstep
    obtain ⟨more', hmore', happ'⟩ :=
      ih (fun c hc => hplain c (by simp [hc])) happ.writes.layout hrest
    refine ⟨more ++ more', by rw [hmore', hmore, List.append_assoc], ?_⟩
    rw [List.map_append]
    exact happ.trans happ'

/-- The leader of the next term has the entry too, and commits it. -/
theorem run_applied_next_leader :
    ∃ w, run step (leaderOfThree.proposeAndWaitForApply (.set "x" "1"))
        [.node (.appendEntries someClock
          { term := 2
            leaderId := "b"
            prevLogIndex := 0
            prevLogTerm := 0
            entries := [{ term := 1, index := 1, command := .set "x" "1" }]
            leaderCommit := 1 })] = some w ∧
      w.applied.map (fun p => p.1.command) = [.set "x" "1"] ∧
      w.node.stateMachine.contents "x" = some "1" := by
  obtain ⟨w, hrun, happlied⟩ : ∃ w,
      run step (leaderOfThree.proposeAndWaitForApply (.set "x" "1"))
        [.node (.appendEntries someClock
          { term := 2
            leaderId := "b"
            prevLogIndex := 0
            prevLogTerm := 0
            entries := [{ term := 1, index := 1, command := .set "x" "1" }]
            leaderCommit := 1 })] = some w ∧
      w.applied.map (fun p => p.1.command) = [.set "x" "1"] :=
    exists_run_of_any (by decide +kernel)
  obtain ⟨more, hmore, happ⟩ := run_applied (by simp [NodeEvent.isSnapshot]) freshStore_ok.1 hrun
  have hsame : more.map (fun p => p.1.command) = [.set "x" "1"] := by
    rw [← happlied, hmore]
    rfl
  rw [hsame] at happ
  exact ⟨w, hrun, happlied, (happ.writes.contents "x").trans (by decide +kernel)⟩

/-! ## The entry of the call -/

/-- The entry `own` is at its place in the log until it is applied, and it is
applied once. -/
structure OwnInPlace (own : LogEntry) (w : ApplyWait) : Prop where
  before : w.node.lastApplied < own.index →
    w.node.log[own.index - 1]? = some own ∧ w.appliedAt own.index = []
  after : own.index ≤ w.node.lastApplied → w.appliedAt own.index = [own]

/-- What is known of `own` in each phase of the call. -/
def Tracks (own : LogEntry) (w : ApplyWait) : Prop :=
  match w.phase with
  | .waiting index => index = own.index ∧ OwnInPlace own w
  | .returned (.ok index) =>
      index = own.index ∧ own.index ≤ w.node.lastApplied ∧ w.appliedAt own.index = [own]
  | .returned (.error _) => True

variable {own : LogEntry} {n' : RaftNode} {c : NodeEvent}

theorem afterCall_appliedAt (index : Nat) (c : NodeEvent) (n' : RaftNode) (w : ApplyWait) :
    (w.afterCall c n').appliedAt index = w.appliedAt index ++
      ((appliedBy c w.node n').filter (fun p => p.2 == index)).map Prod.fst := by
  unfold appliedAt afterCall
  rw [List.filter_append, List.map_append]

/-- Nothing is applied twice. -/
theorem appliedAt_of_applied {index : Nat} (hle : index ≤ w.node.lastApplied) :
    (w.afterCall c n').appliedAt index = w.appliedAt index := by
  rw [afterCall_appliedAt]
  cases hsnap : c.isSnapshot with
  | true => simp [appliedBy_snapshot hsnap]
  | false =>
    rw [appliedBy_at hsnap, if_neg (by omega), List.append_nil]

theorem OwnInPlace.node (h : OwnInPlace own w) (hpos : 0 < own.index)
    (hkeep : w.node.lastApplied < own.index → w.node.KeepsFirst own.index c)
    (hstep : w.node.step c = some n') :
    OwnInPlace own (w.afterCall c n') := by
  rcases Nat.lt_or_ge w.node.lastApplied own.index with hlt | hge
  · obtain ⟨hown, hnone⟩ := h.before hlt
    have hin := (List.getElem?_eq_some_iff.mp hown).1
    have hprefix := step_take (by omega) (hkeep hlt) hstep
    have hown' : n'.log[own.index - 1]? = some own := by
      obtain ⟨rest, hrest⟩ := hprefix
      rw [← hrest, List.getElem?_append_left (by rw [List.length_take]; omega),
        List.getElem?_take_of_lt (by omega), hown]
    cases hsnap : c.isSnapshot with
    | true =>
      have hlt' := step_snapshot_lastApplied hsnap hpos hown hlt (hkeep hlt) hstep
      refine ⟨fun _ => ⟨hown', ?_⟩, fun hle => absurd hle (Nat.not_le.mpr hlt')⟩
      rw [afterCall_appliedAt, hnone, appliedBy_snapshot hsnap]
      rfl
    | false =>
      refine ⟨fun hlt' => ⟨hown', ?_⟩, fun hle => ?_⟩
      · rw [afterCall_appliedAt, hnone, appliedBy_at hsnap, if_neg]
        · rfl
        · exact fun h => absurd h.2 (Nat.not_le.mpr hlt')
      · rw [afterCall_appliedAt, hnone, appliedBy_at hsnap, if_pos ⟨hlt, hle⟩, hown']
        rfl
  · have hle := step_lastApplied_le hstep
    refine ⟨fun hlt' => ?_, fun _ => ?_⟩
    · exact absurd (Nat.lt_of_le_of_lt (hge.trans hle) hlt') (Nat.lt_irrefl _)
    · rw [appliedAt_of_applied hge]
      exact h.after hge

theorem Tracks.node (h : Tracks own w) (hpos : 0 < own.index) (hkeep : w.KeepsOwn (.node c))
    (hstep : w.node.step c = some n') :
    Tracks own (w.afterCall c n') := by
  have hsame : (w.afterCall c n').phase = w.phase := rfl
  unfold Tracks at h ⊢
  unfold KeepsOwn at hkeep
  dsimp only at hkeep
  rw [hsame]
  cases hphase : w.phase with
  | waiting index =>
    rw [hphase] at h hkeep
    obtain ⟨rfl, hplace⟩ := h
    exact ⟨rfl, hplace.node hpos hkeep hstep⟩
  | returned result =>
    rw [hphase] at h
    cases result with
    | error reason => trivial
    | ok index =>
      obtain ⟨rfl, hle, happlied⟩ := h
      refine ⟨rfl, hle.trans (step_lastApplied_le hstep), ?_⟩
      rw [appliedAt_of_applied hle]
      exact happlied

/-- The loop returns when the entry has been applied. -/
theorem pollApply_ready_applied {what : String} {index : Nat} {expired : Bool} {n : RaftNode}
    (h : n.pollApply what index expired = .ready) : index ≤ n.lastApplied := by
  unfold pollApply at h
  split_ifs at h with hstate hready
  exact hready.2

theorem Tracks.poll {expired : Bool} (h : Tracks own w)
    (hstep : w.step (.poll expired) = some w') : Tracks own w' := by
  unfold step at hstep
  dsimp only at hstep
  cases hphase : w.phase with
  | returned result =>
    rw [hphase] at hstep
    cases hstep
  | waiting index =>
    rw [hphase] at hstep
    unfold Tracks at h
    rw [hphase] at h
    dsimp only at h hstep
    obtain ⟨rfl, hplace⟩ := h
    cases hpoll : w.node.pollApply "index" own.index expired with
    | ready =>
      rw [hpoll] at hstep
      obtain rfl := Option.some.inj hstep
      have hle := pollApply_ready_applied hpoll
      exact ⟨rfl, hle, hplace.after hle⟩
    | failed reason =>
      rw [hpoll] at hstep
      obtain rfl := Option.some.inj hstep
      trivial
    | pending =>
      rw [hpoll] at hstep
      obtain rfl := Option.some.inj hstep
      unfold Tracks
      rw [hphase]
      exact ⟨rfl, hplace⟩

theorem Tracks.step {e : WaitEvent} (hpos : 0 < own.index) (h : Tracks own w)
    (hkeep : w.KeepsOwn e) (hstep : w.step e = some w') : Tracks own w' := by
  cases e with
  | node c =>
    obtain ⟨n', hn', rfl⟩ := Option.map_eq_some_iff.mp hstep
    exact h.node hpos hkeep hn'
  | poll expired => exact h.poll hstep

/-- A call begins with its entry at the end of the log. -/
theorem proposeAndWaitForApply_tracks (command : Command) {n : RaftNode}
    (hbehind : n.lastApplied ≤ n.log.length) :
    Tracks (n.nextEntry command) (n.proposeAndWaitForApply command) := by
  unfold proposeAndWaitForApply
  split_ifs
  · trivial
  · cases hok : (n.propose command).1 with
    | false =>
      rw [show n.propose command = (false, (n.propose command).2) from Prod.ext hok rfl]
      trivial
    | true =>
      rw [show n.propose command = (true, (n.propose command).2) from Prod.ext hok rfl]
      obtain ⟨-, storage, heq⟩ := propose_eq_true hok
      rw [heq]
      have hidx : (n.nextEntry command).index = n.log.length + 1 := rfl
      refine ⟨by simp [hidx], fun _ => ⟨?_, rfl⟩, fun hle => ?_⟩
      · rw [hidx]
        simp
      · rw [hidx] at hle
        have : n.log.length + 1 ≤ n.lastApplied := hle
        omega

end ApplyWait

open RaftNode

/-- While the entry of the call stays in place until it is applied, a call that
returns an index has had its own command applied there. -/
theorem own_entry_applied {command : Command} {n : RaftNode} {es : List WaitEvent}
    {w : ApplyWait} {index : Nat} (hbehind : n.lastApplied ≤ n.log.length)
    (hkeep : Along ApplyWait.step ApplyWait.KeepsOwn (n.proposeAndWaitForApply command) es)
    (hrun : run ApplyWait.step (n.proposeAndWaitForApply command) es = some w)
    (hok : w.phase = .returned (.ok index)) :
    (w.appliedAt index).map LogEntry.command = [command] := by
  have hpos : 0 < (n.nextEntry command).index := Nat.succ_pos n.log.length
  have htracks : ApplyWait.Tracks (n.nextEntry command) w :=
    run_invariant (fun h hP hstep => h.step hpos hP hstep)
      (ApplyWait.proposeAndWaitForApply_tracks command hbehind) hkeep hrun
  unfold ApplyWait.Tracks at htracks
  rw [hok] at htracks
  obtain ⟨rfl, -, happlied⟩ := htracks
  rw [happlied]
  rfl

/-- The leader of term 2 sends its first entry and commits it.  Then the node
is elected in term 3, before the loop looks at it again. -/
def lostAndRegained (entry : LogEntry) : List WaitEvent :=
  [.node (.appendEntries someClock
      { term := 2
        leaderId := "b"
        prevLogIndex := 0
        prevLogTerm := 0
        entries := [entry]
        leaderCommit := 1 }),
    .node (.enterPreVote 3), .node (.preVoteQuorum someClock), .node (.voteQuorum someClock 3),
    .poll false]

theorem own_entry_applied_by_next_leader :
    ∃ w, run ApplyWait.step (leaderOfThree.proposeAndWaitForApply (.set "x" "1"))
        (lostAndRegained { term := 1, index := 1, command := .set "x" "1" }) = some w ∧
      w.phase = .returned (.ok 1) ∧
      (w.appliedAt 1).map LogEntry.command = [.set "x" "1"] := by
  obtain ⟨w, hrun, hok⟩ : ∃ w,
      run ApplyWait.step (leaderOfThree.proposeAndWaitForApply (.set "x" "1"))
        (lostAndRegained { term := 1, index := 1, command := .set "x" "1" }) = some w ∧
      w.phase = .returned (.ok 1) :=
    exists_run_of_any (by decide +kernel)
  have hkeep : Along ApplyWait.step ApplyWait.KeepsOwn
      (leaderOfThree.proposeAndWaitForApply (.set "x" "1"))
      (lostAndRegained { term := 1, index := 1, command := .set "x" "1" }) := by
    decide +kernel
  exact ⟨w, hrun, hok, own_entry_applied (by decide +kernel) hkeep hrun hok⟩

/-- The leader of term 2 has another first entry.  The call returns the index
of that one. -/
theorem overwritten_entry_reported_applied :
    ∃ w, run ApplyWait.step (leaderOfThree.proposeAndWaitForApply (.set "x" "1"))
        (lostAndRegained { term := 2, index := 1, command := .set "y" "2" }) = some w ∧
      w.phase = .returned (.ok 1) ∧
      (w.appliedAt 1).map LogEntry.command = [.set "y" "2"] :=
  exists_run_of_any (by decide +kernel)

end OxideKv
