import OxideKv.Raft.Plain
import OxideKv.Raft.SnapshotSuffix
import OxideKv.Raft.TxSteps

/-!
# What an outcome of a transaction says

`coordinate_tx` answers the client from what it knows: the votes, the index of
its own `DecideTx` and the clock.

* `aborted_outcome_applies_nothing`: after `Aborted` no `DecideTx(Commit)` of
  the call is applied, as long as the outer timeout does not drop a call that
  waits for one.
* `committed_outcome_own_iff`: after `Committed` the leader has applied the
  operations of this very call exactly when nobody else has begun or decided a
  transaction of that id in between.
-/

namespace OxideKv

open RaftNode Run

/-! ## Aborted -/

namespace TxPhase

/-- The call waits for a `DecideTx(Commit)` of its own. -/
def hasDecided : TxPhase → Bool
  | .waitBatch _ _ => true
  | .waitDecide _ .commit _ _ _ => true
  | _ => false

/-- A call that has got here can have proposed a `DecideTx(Commit)`. -/
def mayHaveDecided : TxPhase → Bool
  | .done (.committed _ _ _) | .done (.notLeader _) | .gone => true
  | phase => phase.hasDecided

end TxPhase

/-- The call has not proposed a `DecideTx(Commit)`. -/
def TxCall.Undecided (c : TxCall) : Prop :=
  ∀ entry ∈ c.proposed, entry.command ≠ .decideTx c.txId .commit

/-- The entries that a proposal appends are those of its command. -/
theorem propose_drop (command : Command) (n : RaftNode) :
    ∀ entry ∈ (propose command n).2.log.drop n.log.length, entry.command = command := by
  obtain ⟨storage, entries, heq, -, -, hall⟩ := propose_appends (P := (· = command)) rfl n
  rw [heq]
  dsimp only
  rw [List.drop_left]
  exact hall

/-- What the call proposes next is no `DecideTx(Commit)`. -/
theorem TxCall.Undecided.propose {c : TxCall} (h : c.Undecided) {command : Command}
    (hne : command ≠ .decideTx c.txId .commit) (n : RaftNode) :
    ∀ entry ∈ c.proposed ++ (RaftNode.propose command n).2.log.drop n.log.length,
      entry.command ≠ .decideTx c.txId .commit := by
  intro entry hentry
  rcases List.mem_append.mp hentry with hentry | hentry
  · exact h entry hentry
  · rw [propose_drop command n entry hentry]
    exact hne

/-- A turn of the call. -/
theorem TxCall.Turns.undecided {c : TxCall} {n : RaftNode} {turn : TxTurn} (hturn : c.Turns n turn)
    (h : c.phase.mayHaveDecided = false → c.Undecided)
    (hphase : turn.phase.mayHaveDecided = false) :
    ∀ entry ∈ c.proposed ++ turn.proposed, entry.command ≠ .decideTx c.txId .commit := by
  have hsame : c.phase.mayHaveDecided = false →
      ∀ entry ∈ c.proposed ++ [], entry.command ≠ .decideTx c.txId .commit := by
    intro hc
    rw [List.append_nil]
    exact h hc
  cases hturn with
  | batch =>
    unfold TxTurn.ofPropose at hphase
    dsimp only at hphase
    split_ifs at hphase <;> cases hphase
  | batchApplied | stepsDown | gaveUp => cases hphase
  | begins hc => exact (h (by rw [hc]; rfl)).propose (by simp) n
  | decides hc =>
    refine (h (by rw [hc]; rfl)).propose (fun heq => ?_) n
    -- the phase after a proposed commit can have decided, whatever became of it
    rw [(Command.decideTx.inj heq).2] at hphase
    unfold TxTurn.ofPropose at hphase
    dsimp only at hphase
    split_ifs at hphase <;> cases hphase
  | @decided round decision abortReason i polled hc _ =>
    cases decision with
    | commit => cases hphase
    | abort => exact hsame (by rw [hc]; rfl)
  | begun hc _ | unreplicated hc | replicated hc _ _ | reads hc | asks hc | counts hc
  | refuses hc => exact hsame (by rw [hc]; rfl)
  | waits hc =>
    refine hsame ?_
    cases hcall : c.phase with
    | waitBatch i polled =>
      rw [hcall] at hphase
      cases hphase
    | waitDecide round decision abortReason i polled =>
      rw [hcall] at hphase
      cases decision with
      | commit => cases hphase
      | abort => rfl
    | waitBegin | waitReplication => rfl
    | _ => rw [hcall] at hc; cases hc

namespace TxCluster

/-- The outer timeout does not drop a call that waits for its own
`DecideTx(Commit)`. -/
def CancelsUndecided (s : TxCluster) : TxEvent → Prop
  | .cancel k => ∀ c ∈ s.calls[k]?, c.phase.hasDecided = false
  | _ => True

instance (s : TxCluster) (e : TxEvent) : Decidable (s.CancelsUndecided e) := by
  unfold CancelsUndecided
  split <;> infer_instance

/-- A call that cannot have decided has not proposed a commit. -/
def CallsUndecided (s : TxCluster) : Prop :=
  ∀ (k : Nat) (c : TxCall), s.calls[k]? = some c → c.phase.mayHaveDecided = false → c.Undecided

theorem step_callsUndecided {m : Membership} {s s' : TxCluster} {e : TxEvent}
    (h : s.CallsUndecided) (hcancel : s.CancelsUndecided e) (hstep : s.step m e = some s') :
    s'.CallsUndecided := by
  intro k c' hk' hphase
  rcases Nat.lt_or_ge k s.calls.length with hlt | hge
  · have hk : s.calls[k]? = some s.calls[k] := List.getElem?_eq_getElem hlt
    have hold := h k _ hk
    generalize s.calls[k] = c at hk hold
    cases step_call hstep hk with
    | idle _ hk₁ =>
      obtain rfl : c = c' := Option.some.inj (hk₁.symm.trans hk')
      exact hold hphase
    | turn hturn =>
      rw [finish_call hk] at hk'
      obtain rfl := Option.some.inj hk'
      exact hturn.undecided hold hphase
    | collects _ _ hcall hk₁ =>
      obtain rfl := Option.some.inj (hk₁.symm.trans hk')
      exact hold (by rw [hcall]; rfl)
    | cancelled _ hawaits hk₁ =>
      obtain rfl := Option.some.inj (hk₁.symm.trans hk')
      have hno := hcancel c hk
      refine hold ?_
      cases hcall : c.phase <;> rw [hcall] at hawaits hno <;>
        first | exact hno | cases hawaits
    | crashed hk₁ =>
      obtain rfl := Option.some.inj (hk₁.symm.trans hk')
      cases hphase
  · obtain ⟨p, txId, ops, -, rfl⟩ := step_new_call hstep hk' hge
    exact fun _ hentry => absurd hentry List.not_mem_nil

/-- After `Aborted` nobody applies a `DecideTx(Commit)` of the call. -/
theorem aborted_outcome_applies_nothing {m : Membership} {es fs : List TxEvent}
    {s t : TxCluster} (halong : Along (step m) CancelsUndecided (start m) (es ++ fs))
    (hs : run (step m) (start m) es = some s) (_ : run (step m) s fs = some t)
    {k : Nat} {c : TxCall} {reason : String} (hk : s.calls[k]? = some c)
    (hdone : c.phase = .done (.aborted c.txId reason)) :
    ∀ entry ∈ c.proposed, entry.command = .decideTx c.txId .commit →
      ∀ q, entry ∉ (t.base.nodes q).log.take (t.base.nodes q).lastApplied := by
  have hundecided : s.CallsUndecided := run_invariant step_callsUndecided
    (fun _ _ hc => by cases hc) (halong.append hs).1 hs
  intro entry hentry hcommit
  exact absurd hcommit (hundecided k c hk (by rw [hdone]; rfl) entry hentry)

/-- Two nodes. -/
def twoNodes : Membership where
  members := ["a", "b"]
  nodup := by decide
  peers := fun p => ["a", "b"].erase p
  perm := fun p hp => (List.perm_cons_erase hp).symm

/-- `a` is elected. -/
def electedA : List TxEvent :=
  [.base (.becomeCandidate "a" someClock), .base (.resume 0 someClock),
    .base (.deliver 0 someClock), .base (.receive 0 someClock), .base (.resume 0 someClock)]

def firstTx : TxEvent := .coordinateTx "a" "t" [.put "x" "1"]

/-- `b` confirms the `BeginTx`, and `a` asks it for its vote. -/
def askedB : List TxEvent :=
  [.resume 0 false, .base (.resume 0 someClock), .base (.resume 0 someClock),
    .base (.deliver 1 someClock), .base (.receive 1 someClock),
    .resume 0 false, .resume 0 false, .resume 0 false, .resume 0 false]

/-- `b` votes, and `a` proposes the commit. -/
def grantedB : List TxEvent :=
  [.deliver 0 someClock, .vote 0 0, .resume 0 false, .resume 0 false]

/-- `b` confirms the decision. -/
def decisionConfirmed : List TxEvent :=
  [.base (.resume 1 someClock), .base (.resume 1 someClock), .base (.deliver 2 someClock),
    .base (.receive 2 someClock)]

/-- `b` does not answer in time, and the `DecideTx(Abort)` is applied. -/
def voteMissing : List TxEvent :=
  electedA ++ firstTx :: askedB ++ [.voteFailed 0 .timedOut, .resume 0 false, .resume 0 false] ++
    decisionConfirmed ++ [.resume 0 false]

theorem aborted_outcome_applies_nothing_missing_vote :
    ∃ s, run (step twoNodes) (start twoNodes) voteMissing = some s ∧
      ∃ c reason, s.calls[0]? = some c ∧ c.phase = .done (.aborted c.txId reason) ∧
        c.proposed.length = 2 ∧ ∀ entry ∈ c.proposed, entry.command = .decideTx c.txId .commit →
          ∀ q, entry ∉ (s.base.nodes q).log.take (s.base.nodes q).lastApplied := by
  obtain ⟨s, hs, hcall⟩ : ∃ s, run (step twoNodes) (start twoNodes) voteMissing = some s ∧
      (s.calls[0]?).map (fun c => (c.txId, c.phase, c.proposed.length)) =
        some ("t", .done (.aborted "t"
          "peer b vote RPC failed: vote RPC timed out after 2000ms (treated as No)"), 2) :=
    exists_run_of_any (by decide +kernel)
  obtain ⟨c, hk, heq⟩ := Option.map_eq_some_iff.mp hcall
  obtain ⟨htx, heq⟩ := Prod.mk.inj heq
  obtain ⟨hphase, hlen⟩ := Prod.mk.inj heq
  rw [← htx] at hphase
  refine ⟨s, hs, c, _, hk, hphase, hlen, ?_⟩
  have halong : Along (step twoNodes) CancelsUndecided (start twoNodes) (voteMissing ++ []) := by
    decide +kernel
  exact aborted_outcome_applies_nothing halong hs rfl hk hphase

/-- The outer timeout drops the call while it waits for its
`DecideTx(Commit)`. -/
def cancelledCommit : List TxEvent :=
  electedA ++ firstTx :: askedB ++ grantedB ++ [.resume 0 false, .cancel 0]

theorem committed_after_aborted_outcome :
    ∃ s t, run (step twoNodes) (start twoNodes) cancelledCommit = some s ∧
      run (step twoNodes) s decisionConfirmed = some t ∧
      ∃ c reason entry, s.calls[0]? = some c ∧ c.phase = .done (.aborted c.txId reason) ∧
        entry ∈ c.proposed ∧ entry.command = .decideTx c.txId .commit ∧
        entry ∈ (t.base.nodes "a").log.take (t.base.nodes "a").lastApplied ∧
        (t.base.nodes "a").stateMachine.get "x" = some "1" := by
  obtain ⟨t, ht, hlog, hget⟩ : ∃ t, run (step twoNodes) (start twoNodes)
      (cancelledCommit ++ decisionConfirmed) = some t ∧
      ({ term := 1, index := 2, command := .decideTx "t" .commit } : LogEntry) ∈
        (t.base.nodes "a").log.take (t.base.nodes "a").lastApplied ∧
      (t.base.nodes "a").stateMachine.get "x" = some "1" :=
    exists_run_of_any (by decide +kernel)
  obtain ⟨s, hs, hcall⟩ : ∃ s, run (step twoNodes) (start twoNodes) cancelledCommit = some s ∧
      (s.calls[0]?).any (fun c : TxCall => decide (c.txId = "t" ∧
        c.phase = .done (.aborted "t" "coordinator round exceeded 10s wall-clock bound") ∧
        { term := 1, index := 2, command := .decideTx "t" .commit } ∈ c.proposed)) = true :=
    exists_run_of_any (by decide +kernel)
  obtain ⟨s', hs', ht⟩ := run_append_eq_some.mp ht
  obtain rfl : s = s' := Option.some.inj (hs.symm.trans hs')
  rw [Option.any_eq_true] at hcall
  obtain ⟨c, hk, hc⟩ := hcall
  obtain ⟨htx, hphase, hproposed⟩ := of_decide_eq_true hc
  exact ⟨s, t, hs, ht, c, _, _, hk, by rw [hphase, htx], hproposed, by rw [htx], hlog, hget⟩

end TxCluster

/-! ## Committed -/

namespace Command

/-- The index of the `BeginTx` behind the transaction in flight under `txId`,
after the command at the index `i`. -/
def creatorAfter (txId : String) (since : Option Nat) (i : Nat) : Command → Option Nat
  | .beginTx id _ => if id = txId then some i else since
  | .decideTx id _ => if id = txId then none else since
  | _ => since

theorem creatorAfter_of_not_touches {txId : String} {since : Option Nat} {i : Nat} {c : Command}
    (h : c.touches txId = false) : c.creatorAfter txId since i = since := by
  cases c with
  | beginTx id ops => exact if_neg (by simpa [touches] using h)
  | decideTx id decision => exact if_neg (by simpa [touches] using h)
  | _ => rfl

theorem creatorAfter_of_touches {txId : String} {since : Option Nat} {i : Nat} {c : Command}
    (h : c.touches txId = true) :
    c.creatorAfter txId since i = none ∨ c.creatorAfter txId since i = some i := by
  cases c with
  | beginTx id ops => exact Or.inr (if_pos (by simpa [touches] using h))
  | decideTx id decision => exact Or.inl (if_pos (by simpa [touches] using h))
  | _ => cases h

end Command

/-- The same after a list of commands, the first of them at the index `i`. -/
def creator (txId : String) : Option Nat → Nat → List Command → Option Nat
  | since, _, [] => since
  | since, i, c :: cs => creator txId (c.creatorAfter txId since i) (i + 1) cs

section Creator

variable {txId : String}

theorem creator_append (cs ds : List Command) : ∀ (since : Option Nat) (i : Nat),
    creator txId since i (cs ++ ds) =
      creator txId (creator txId since i cs) (i + cs.length) ds := by
  induction cs with
  | nil => exact fun _ _ => rfl
  | cons c cs ih =>
    intro since i
    rw [List.cons_append, creator, ih, creator, List.length_cons, Nat.add_assoc, Nat.add_comm 1]

theorem creator_of_not_touched (cs : List Command) : ∀ (since : Option Nat) (i : Nat),
    cs.any (Command.touches txId) = false → creator txId since i cs = since := by
  induction cs with
  | nil => exact fun _ _ _ => rfl
  | cons c cs ih =>
    intro since i h
    rw [List.any_cons, Bool.or_eq_false_iff] at h
    rw [creator, Command.creatorAfter_of_not_touches h.1]
    exact ih since (i + 1) h.2

/-- What a list of commands creates is one of them. -/
theorem creator_cases (cs : List Command) : ∀ (since : Option Nat) (i : Nat) {j : Nat},
    creator txId since i cs = some j →
      since = some j ∧ cs.any (Command.touches txId) = false ∨ i ≤ j := by
  induction cs with
  | nil => exact fun since i j h => Or.inl ⟨h, rfl⟩
  | cons c cs ih =>
    intro since i j h
    rw [creator] at h
    rcases ih _ (i + 1) h with ⟨hsince, hcs⟩ | hle
    · cases htouch : c.touches txId with
      | false =>
        rw [Command.creatorAfter_of_not_touches htouch] at hsince
        exact Or.inl ⟨hsince, by rw [List.any_cons, htouch, hcs]; rfl⟩
      | true =>
        rcases @Command.creatorAfter_of_touches txId since i c htouch with hnone | hsome
        · rw [hnone] at hsince
          cases hsince
        · rw [hsome] at hsince
          exact Or.inr (Option.some.inj hsince).le
    · exact Or.inr (by omega)

/-- The transaction of a `BeginTx` is in flight as long as nobody touches
it. -/
theorem creator_begin_iff {before after : List Command} {ops : List TxOp} {i : Nat} :
    creator txId none i (before ++ .beginTx txId ops :: after) = some (i + before.length) ↔
      after.any (Command.touches txId) = false := by
  rw [creator_append, creator]
  have hbegin : (Command.beginTx txId ops).creatorAfter txId (creator txId none i before)
      (i + before.length) = some (i + before.length) := if_pos rfl
  rw [hbegin]
  constructor
  · intro h
    rcases creator_cases _ _ _ h with ⟨-, hafter⟩ | hle
    · exact hafter
    · omega
  · exact creator_of_not_touched after _ _

end Creator

/-- The commands that `n` has applied since it was `n₀`, up to the index
`i`. -/
def RaftNode.appliedSince (n₀ n : RaftNode) (i : Nat) : List Command :=
  (between n₀.lastApplied i n.log).map LogEntry.command

/-- When the node applies the `DecideTx(Commit)` at the index `d`, the
transaction in flight is that of the `BeginTx` at the index `b`, and its
operations are written. -/
structure DecidesOwn (n₀ n : RaftNode) (txId : String) (ops : List TxOp) (b d : Nat) : Prop where
  creator : creator txId none (n₀.lastApplied + 1) (n₀.appliedSince n (d - 1)) = some b
  writes : (Command.decideTx txId .commit).writes
    (logStaged n₀.stateMachine.staged (n₀.appliedSince n (d - 1))) = ops.map StateMachine.txOpWrite

/-- Somebody else begins or decides the transaction in these entries. -/
def rivals (txId : String) (log : List LogEntry) : Bool :=
  log.any fun entry => entry.command.touches txId

theorem rivals_append (txId : String) (log log' : List LogEntry) :
    rivals txId (log ++ log') = (rivals txId log || rivals txId log') := List.any_append

theorem decidesOwn_iff {n₀ n : RaftNode} {txId : String} {ops : List TxOp} {b d : Nat}
    (hpos : 0 < b) (hbegin : (n.log[b - 1]?).map LogEntry.command = some (.beginTx txId ops))
    (hlt : b < d) :
    DecidesOwn n₀ n txId ops b d ↔
      n₀.lastApplied < b ∧ rivals txId (between b (d - 1) n.log) = false := by
  obtain ⟨entry, hentry, hcommand⟩ := Option.map_eq_some_iff.mp hbegin
  have htouched : ((between b (d - 1) n.log).map LogEntry.command).any (Command.touches txId) =
      rivals txId (between b (d - 1) n.log) := List.any_map
  rcases Nat.lt_or_ge n₀.lastApplied b with hnew | hold
  · -- the entry is among those that the node has applied since
    have hsplit : n₀.appliedSince n (d - 1) =
        (between n₀.lastApplied (b - 1) n.log).map LogEntry.command ++
          .beginTx txId ops :: (between b (d - 1) n.log).map LogEntry.command := by
      unfold RaftNode.appliedSince
      rw [between_append n.log (by omega : n₀.lastApplied ≤ b - 1) (by omega : b - 1 ≤ d - 1),
        between_cons (by omega) hentry, Nat.sub_add_cancel hpos, List.map_append, List.map_cons,
        hcommand]
    have hin := (List.getElem?_eq_some_iff.mp hentry).1
    have hlen : n₀.lastApplied + 1 +
        ((between n₀.lastApplied (b - 1) n.log).map LogEntry.command).length = b := by
      unfold between
      rw [List.length_map, List.length_drop, List.length_take]
      omega
    have hcreator : creator txId none (n₀.lastApplied + 1) (n₀.appliedSince n (d - 1)) = some b ↔
        rivals txId (between b (d - 1) n.log) = false := by
      have hiff := @creator_begin_iff txId
        ((between n₀.lastApplied (b - 1) n.log).map LogEntry.command)
        ((between b (d - 1) n.log).map LogEntry.command) ops (n₀.lastApplied + 1)
      rwa [hlen, htouched, ← hsplit] at hiff
    constructor
    · exact fun h => ⟨hnew, hcreator.mp h.creator⟩
    · rintro ⟨-, hnone⟩
      refine ⟨hcreator.mpr hnone, ?_⟩
      have hstaged : logStaged n₀.stateMachine.staged (n₀.appliedSince n (d - 1)) txId =
          some ops := by
        rw [hsplit, logStaged_append]
        refine (logStaged_of_not_touched _ _ (htouched.trans hnone)).trans ?_
        exact Function.update_self _ _ _
      show StateMachine.decisionWrites _ .commit = _
      rw [hstaged]
      rfl
  · constructor
    · intro h
      rcases creator_cases _ _ _ h.creator with ⟨hnone, -⟩ | hle
      · cases hnone
      · omega
    · rintro ⟨hnew, -⟩
      omega

/-! ### The entries of a call -/

/-- The index of the `BeginTx` of a call that has not proposed its decision. -/
def TxPhase.begunAt : TxPhase → Option Nat
  | .waitBegin b _ | .waitReplication b _ | .readRound b => some b
  | .recordOwn round | .collect round _ | .tally round _ _ _ => some round.beginIndex
  | _ => none

section Tracks

variable (A : Prop) (n₀ n : RaftNode) (txId : String) (ops : List TxOp)

/-- The `BeginTx` of the call is at the index `b`.  `A` says that nothing has
come between. -/
structure Begun (b : Nat) : Prop where
  pos : 0 < b
  beginTx : (n.log[b - 1]?).map LogEntry.command = some (.beginTx txId ops)
  undisturbed : A ↔ n₀.lastApplied < b ∧ rivals txId (n.log.drop b) = false

/-- The `DecideTx` of the call is at the index `d`. -/
structure Decided (b d : Nat) (decision : TxDecision) : Prop where
  pos : 0 < b
  beginTx : (n.log[b - 1]?).map LogEntry.command = some (.beginTx txId ops)
  lt : b < d
  decideTx : (n.log[d - 1]?).map LogEntry.command = some (.decideTx txId decision)
  undisturbed : A ↔ n₀.lastApplied < b ∧ rivals txId (between b (d - 1) n.log) = false

/-- What the phase of a call says about the log of its leader. -/
def Tracks : TxPhase → Prop
  | .proposeBatch | .waitBatch _ _ => False
  | .proposeBegin => A
  | .waitBegin b _ | .waitReplication b _ | .readRound b => Begun A n₀ n txId ops b
  | .recordOwn round | .collect round _ | .tally round _ _ _ =>
      Begun A n₀ n txId ops round.beginIndex
  | .waitDecide round decision _ d _ => Decided A n₀ n txId ops round.beginIndex d decision
  | .done (.committed b d _) => Decided A n₀ n txId ops b d .commit ∧ d ≤ n.lastApplied
  | .done _ | .gone => True

end Tracks

section TrackSteps

variable {A A' : Prop} {n₀ n n' : RaftNode} {txId : String} {ops : List TxOp} {b d : Nat}

theorem getElem?_command_of_isPrefix {log log' : List LogEntry} (h : log <+: log') {i : Nat}
    {c : Command} (hc : (log[i]?).map LogEntry.command = some c) :
    (log'[i]?).map LogEntry.command = some c := by
  obtain ⟨entry, hentry, -⟩ := Option.map_eq_some_iff.mp hc
  obtain ⟨rest, rfl⟩ := h
  rwa [List.getElem?_append_left (List.getElem?_eq_some_iff.mp hentry).1]

theorem Begun.le_length (h : Begun A n₀ n txId ops b) : b ≤ n.log.length := by
  obtain ⟨entry, hentry, -⟩ := Option.map_eq_some_iff.mp h.beginTx
  have hlt := (List.getElem?_eq_some_iff.mp hentry).1
  omega

theorem Decided.le_length {decision : TxDecision} (h : Decided A n₀ n txId ops b d decision) :
    d ≤ n.log.length := by
  obtain ⟨entry, hentry, -⟩ := Option.map_eq_some_iff.mp h.decideTx
  have hlt := (List.getElem?_eq_some_iff.mp hentry).1
  omega

/-- The log of the leader grows while the call waits for votes. -/
theorem Begun.grow (h : Begun A n₀ n txId ops b) {new : List LogEntry}
    (hlog : n'.log = n.log ++ new) (hA : A' ↔ A ∧ rivals txId new = false) :
    Begun A' n₀ n' txId ops b := by
  refine ⟨h.pos, getElem?_command_of_isPrefix (hlog ▸ List.prefix_append _ _) h.beginTx, ?_⟩
  rw [hA, h.undisturbed, hlog, List.drop_append_of_le_length h.le_length, rivals_append,
    Bool.or_eq_false_iff, and_assoc]

/-- What the call has seen decided stays. -/
theorem Decided.grow {decision : TxDecision} (h : Decided A n₀ n txId ops b d decision)
    (hlog : n.log <+: n'.log) (hA : A' ↔ A) : Decided A' n₀ n' txId ops b d decision := by
  refine ⟨h.pos, getElem?_command_of_isPrefix hlog h.beginTx, h.lt,
    getElem?_command_of_isPrefix hlog h.decideTx, ?_⟩
  have hlen := h.le_length
  rw [hA, h.undisturbed, between_of_isPrefix hlog (by omega)]

/-- The call proposes its `BeginTx`. -/
theorem Begun.of_propose (hn : Consumes n₀ n) (hA : A' ↔ n.lastApplied ≤ n.log.length)
    (hok : (propose (.beginTx txId ops) n).1 = true) :
    Begun A' n₀ (propose (.beginTx txId ops) n).2 txId ops
      (propose (.beginTx txId ops) n).2.log.length := by
  obtain ⟨-, storage, heq⟩ := propose_eq_true hok
  have hle := hn.applied
  have hbound := hn.bound
  rw [heq]
  dsimp only
  rw [List.length_append, List.length_singleton]
  refine ⟨Nat.succ_pos _, ?_, ?_⟩
  · rw [Nat.add_sub_cancel, List.getElem?_concat_length]
    rfl
  · rw [hA, List.drop_of_length_le (by rw [List.length_append, List.length_singleton])]
    constructor
    · exact fun h => ⟨by omega, rfl⟩
    · rintro ⟨h, -⟩
      omega

/-- The call proposes its decision. -/
theorem Begun.decide (h : Begun A n₀ n txId ops b) (hA : A' ↔ A) {decision : TxDecision}
    (hok : (propose (.decideTx txId decision) n).1 = true) :
    Decided A' n₀ (propose (.decideTx txId decision) n).2 txId ops b
      (propose (.decideTx txId decision) n).2.log.length decision := by
  obtain ⟨-, storage, heq⟩ := propose_eq_true hok
  have hlen := h.le_length
  rw [heq]
  dsimp only
  rw [List.length_append, List.length_singleton]
  refine ⟨h.pos, getElem?_command_of_isPrefix (List.prefix_append _ _) h.beginTx, by omega, ?_, ?_⟩
  · rw [Nat.add_sub_cancel, List.getElem?_concat_length]
    rfl
  · rw [hA, h.undisturbed, Nat.add_sub_cancel, between_of_isPrefix (List.prefix_append _ _) le_rfl]
    unfold between
    rw [List.take_length]

/-- A step of the leader that is not the turn of the call. -/
theorem Tracks.grow {phase : TxPhase} (h : Tracks A n₀ n txId ops phase) {new : List LogEntry}
    (hlog : n'.log = n.log ++ new) (happlied : n.lastApplied ≤ n'.lastApplied)
    (hA : A' ↔ A ∧ (phase.begunAt.isSome = true → rivals txId new = false)) :
    Tracks A' n₀ n' txId ops phase := by
  have hprefix : n.log <+: n'.log := hlog ▸ List.prefix_append _ _
  have hsame : phase.begunAt = none → (A' ↔ A) := by
    intro hnone
    rw [hA, hnone]
    simp
  have hnew : phase.begunAt.isSome = true → (A' ↔ A ∧ rivals txId new = false) := by
    intro hsome
    rw [hA, hsome]
    simp
  cases phase with
  | proposeBatch | waitBatch => exact h
  | proposeBegin => exact (hsame rfl).mpr h
  | waitBegin | waitReplication | readRound | recordOwn | collect | tally =>
    exact Begun.grow h hlog (hnew rfl)
  | waitDecide => exact Decided.grow h hprefix (hsame rfl)
  | done outcome =>
    cases outcome with
    | committed => exact ⟨Decided.grow h.1 hprefix (hsame rfl), h.2.trans happlied⟩
    | aborted | notLeader => trivial
  | gone => trivial

/-- A turn of the call. -/
theorem Tracks.turn {c : TxCall} {turn : TxTurn} (hturn : c.Turns n turn)
    (h : Tracks A n₀ n c.txId c.ops c.phase) (hn : Consumes n₀ n)
    (hA : A' ↔ A ∧ (c.phase = .proposeBegin → n.lastApplied ≤ n.log.length)) :
    Tracks A' n₀ turn.node c.txId c.ops turn.phase := by
  have hsame : c.phase ≠ .proposeBegin → (A' ↔ A) := by
    intro hne
    rw [hA]
    simp [hne]
  -- the log stays as it is
  have hbegun : ∀ {b : Nat} {n' : RaftNode}, c.phase ≠ .proposeBegin → n'.log = n.log →
      Begun A n₀ n c.txId c.ops b → Begun A' n₀ n' c.txId c.ops b := by
    intro b n' hne hlog hb
    refine hb.grow (hlog.trans (List.append_nil _).symm) ?_
    rw [hsame hne]
    exact (and_iff_left rfl).symm
  cases hturn with
  | batch hc | batchApplied hc =>
    rw [hc] at h
    exact h.elim
  | begins hc =>
    rw [hc] at h hA
    unfold TxTurn.ofPropose
    dsimp only
    split_ifs with hok
    · refine Begun.of_propose hn ?_ hok
      rw [hA]
      exact ⟨fun hall => hall.2 rfl, fun hle => ⟨h, fun _ => hle⟩⟩
    · trivial
  | begun hc | replicated hc | reads hc | refuses hc =>
    rw [hc] at h
    exact hbegun (by rw [hc]; simp) rfl h
  | counts hc =>
    rw [hc] at h
    exact hbegun (by rw [hc]; simp) rfl h
  | @asks round hc =>
    rw [hc] at h
    unfold TxRound.collected
    dsimp only
    split_ifs <;> exact hbegun (by rw [hc]; simp) rfl h
  | decides hc =>
    rw [hc] at h
    unfold TxTurn.ofPropose
    dsimp only
    split_ifs with hok
    · exact Begun.decide h (hsame (by rw [hc]; simp)) hok
    · trivial
  | @decided round decision abortReason i polled hc happlied =>
    rw [hc] at h
    cases decision with
    | commit => exact ⟨Decided.grow h List.prefix_rfl (hsame (by rw [hc]; simp)), happlied.applied⟩
    | abort => trivial
  | unreplicated | stepsDown | gaveUp => trivial
  | waits hpolls =>
    cases hc : c.phase with
    | waitBatch => rw [hc] at h; exact h
    | waitBegin | waitReplication =>
      rw [hc] at h
      exact hbegun (by rw [hc]; simp) rfl h
    | waitDecide =>
      rw [hc] at h
      exact Decided.grow h List.prefix_rfl (hsame (by rw [hc]; simp))
    | _ => rw [hc] at hpolls; cases hpolls

end TrackSteps

/-! ### Runs under one leader -/

/-- The call `k` gets the lock. -/
def TxEvent.resumes (k : Nat) : TxEvent → Bool
  | .resume k' _ => k' == k
  | _ => false

namespace TxCluster

/-- The entries that a step puts into the log of `p`. -/
def newEntries (m : Membership) (s : TxCluster) (e : TxEvent) (p : String) : List LogEntry :=
  ((s.step m e).map fun s' => (s'.base.nodes p).log.drop (s.base.nodes p).log.length).getD []

/-- When the call `k` proposes its `BeginTx`, its node has not applied more
than its log holds; and from then on until the call proposes its decision
nobody else puts a command of that transaction into the log. -/
structure Undisturbed (m : Membership) (k : Nat) (s : TxCluster) (e : TxEvent) : Prop where
  begins : ∀ c ∈ s.calls[k]?, c.phase = .proposeBegin → e.resumes k = true →
    (s.base.nodes c.node).lastApplied ≤ (s.base.nodes c.node).log.length
  waits : ∀ c ∈ s.calls[k]?, c.phase.begunAt.isSome = true → e.resumes k = false →
    rivals c.txId (s.newEntries m e c.node) = false

instance (m : Membership) (k : Nat) (s : TxCluster) (e : TxEvent) :
    Decidable (s.Undisturbed m k e) :=
  decidable_of_iff
    ((∀ c ∈ s.calls[k]?, c.phase = .proposeBegin → e.resumes k = true →
        (s.base.nodes c.node).lastApplied ≤ (s.base.nodes c.node).log.length) ∧
      ∀ c ∈ s.calls[k]?, c.phase.begunAt.isSome = true → e.resumes k = false →
        rivals c.txId (s.newEntries m e c.node) = false)
    ⟨fun ⟨h₁, h₂⟩ => ⟨h₁, h₂⟩, fun ⟨h₁, h₂⟩ => ⟨h₁, h₂⟩⟩

/-- `p` leads before and after the step. -/
def StaysLeader (m : Membership) (p : String) (s : TxCluster) (e : TxEvent) : Prop :=
  (s.base.nodes p).state = .leader ∧
    ∀ s' ∈ s.step m e, (s'.base.nodes p).state = .leader

instance (m : Membership) (p : String) (s : TxCluster) (e : TxEvent) :
    Decidable (s.StaysLeader m p e) :=
  inferInstanceAs (Decidable (_ ∧ _))

/-- The call `k` on `p`, since it has begun when the node was `n₀`. -/
structure Follows (A : Prop) (n₀ : RaftNode) (p txId : String) (ops : List TxOp) (k : Nat)
    (s : TxCluster) : Prop where
  log : n₀.log <+: (s.base.nodes p).log
  consumes : Consumes n₀ (s.base.nodes p)
  call : ∃ c, s.calls[k]? = some c ∧ c.node = p ∧ c.txId = txId ∧ c.ops = ops ∧
    Tracks A n₀ (s.base.nodes p) txId ops c.phase

theorem step_follows {m : Membership} {s s' : TxCluster} {e : TxEvent} {A A' : Prop}
    {n₀ : RaftNode} {p txId : String} {ops : List TxOp} {k : Nat}
    (h : Follows A n₀ p txId ops k s) (hlead : s.StaysLeader m p e)
    (hstep : s.step m e = some s') (hA : A' ↔ A ∧ s.Undisturbed m k e) :
    Follows A' n₀ p txId ops k s' := by
  obtain ⟨hlog, hconsumes⟩ := step_leads hstep hlead.1 (hlead.2 s' hstep)
  obtain ⟨c, hk, rfl, rfl, rfl, htracks⟩ := h.call
  refine ⟨h.log.trans hlog, h.consumes.trans hconsumes hlog, ?_⟩
  have hidle : ∀ {phase : TxPhase}, e.resumes k = false → phase.begunAt = c.phase.begunAt →
      Tracks A n₀ (s.base.nodes c.node) c.txId c.ops phase →
      Tracks A' n₀ (s'.base.nodes c.node) c.txId c.ops phase := by
    intro phase he hbegun hphase
    obtain ⟨new, hnew⟩ := hlog
    refine hphase.grow hnew.symm hconsumes.applied ?_
    have hentries : s.newEntries m e c.node = new := by
      unfold newEntries
      rw [hstep]
      show (s'.base.nodes c.node).log.drop _ = new
      rw [← hnew, List.drop_left]
    rw [hA, hbegun]
    constructor
    · rintro ⟨hold, hundisturbed⟩
      exact ⟨hold, fun hsome => hentries ▸ hundisturbed.waits c hk hsome he⟩
    · rintro ⟨hold, hwaits⟩
      refine ⟨hold, fun c' hk' _ he' => ?_, fun c' hk' hsome _ => ?_⟩
      · rw [he] at he'
        cases he'
      · obtain rfl : c = c' := Option.some.inj (hk.symm.trans hk')
        rw [hentries]
        exact hwaits hsome
  have hother : (∀ expired, e ≠ .resume k expired) → e.resumes k = false := by
    intro hne
    cases e with
    | resume k' expired =>
      refine beq_false_of_ne fun hkk => hne expired ?_
      rw [hkk]
    | _ => rfl
  cases step_call hstep hk with
  | idle he hk' => exact ⟨c, hk', rfl, rfl, rfl, hidle (hother he) rfl htracks⟩
  | @turn expired turn hturn =>
    refine ⟨_, finish_call hk turn, rfl, rfl, rfl, ?_⟩
    have hresumes : (TxEvent.resume k expired).resumes k = true := beq_self_eq_true k
    have hnode : (s.finish k c turn).base.nodes c.node = turn.node := by
      rw [finish_nodes, Function.update_self]
    rw [hnode]
    refine htracks.turn hturn h.consumes ?_
    rw [hA]
    constructor
    · rintro ⟨hold, hundisturbed⟩
      exact ⟨hold, fun hphase => hundisturbed.begins c hk hphase hresumes⟩
    · rintro ⟨hold, hbegins⟩
      refine ⟨hold, fun c' hk' hphase _ => ?_, fun c' hk' _ he' => ?_⟩
      · obtain rfl : c = c' := Option.some.inj (hk.symm.trans hk')
        exact hbegins hphase
      · rw [hresumes] at he'
        cases he'
  | @collects _ _ round results result he hbase hphase hk' =>
    refine ⟨_, hk', rfl, rfl, rfl, ?_⟩
    rw [hphase] at htracks
    have hnext : (round.collected (results ++ [result])).begunAt = c.phase.begunAt := by
      rw [hphase]
      unfold TxRound.collected
      split_ifs <;> rfl
    refine hidle (hother he) hnext ?_
    unfold TxRound.collected
    split_ifs <;> exact htracks
  | cancelled _ _ hk' => exact ⟨_, hk', rfl, rfl, rfl, trivial⟩
  | crashed hk' => exact ⟨_, hk', rfl, rfl, rfl, trivial⟩

/-- The call begins. -/
theorem follows_begin {m : Membership} {s t : TxCluster} {p txId : String} {ops : List TxOp}
    {A : Prop} (hA : A) (hpeers : (s.base.nodes p).peers.isEmpty = false)
    (ht : s.step m (.coordinateTx p txId ops) = some t) :
    Follows A (s.base.nodes p) p txId ops s.calls.length t := by
  simp only [step] at ht
  split_ifs at ht
  obtain rfl := Option.some.inj ht
  refine ⟨List.prefix_rfl, .refl _, _, List.getElem?_concat_length, rfl, rfl, rfl, ?_⟩
  unfold TxCall.begin
  rw [hpeers]
  exact hA

/-- The leader has applied both entries of the call, and with them the log
since the call began. -/
structure DecisionApplied (n₀ n : RaftNode) (txId : String) (ops : List TxOp) (b d : Nat) :
    Prop where
  beginTx : (n.log[b - 1]?).map LogEntry.command = some (.beginTx txId ops)
  decideTx : (n.log[d - 1]?).map LogEntry.command = some (.decideTx txId .commit)
  lt : b < d
  applied : d ≤ n.lastApplied
  effect : Applied (n₀.appliedSince n n.lastApplied) n₀ n

/-- After `Committed` under one leader, what the leader has applied at the
index of the decision is the transaction of this very call exactly when nobody
has begun or decided it in between. -/
theorem committed_outcome_own_iff {m : Membership} {es fs : List TxEvent} {s s' : TxCluster}
    {p txId : String} {ops : List TxOp} {b d : Nat} {c : TxCall}
    (hs : run (step m) (start m) es = some s)
    (hpeers : (s.base.nodes p).peers.isEmpty = false)
    (hlead : Along (step m) (StaysLeader m p) s (.coordinateTx p txId ops :: fs))
    (hs' : run (step m) s (.coordinateTx p txId ops :: fs) = some s')
    (hk : s'.calls[s.calls.length]? = some c) (hdone : c.phase = .done (.committed b d txId)) :
    DecisionApplied (s.base.nodes p) (s'.base.nodes p) txId ops b d ∧
      (DecidesOwn (s.base.nodes p) (s'.base.nodes p) txId ops b d ↔
        Along (step m) (Undisturbed m s.calls.length) s (.coordinateTx p txId ops :: fs)) := by
  obtain ⟨t, ht, hfs⟩ := run_cons_eq_some.mp hs'
  have hfollows : Follows (Along (step m) (Undisturbed m s.calls.length) t fs) (s.base.nodes p) p
      txId ops s.calls.length s' :=
    run_history (P := StaysLeader m p)
      (H := fun fs u => Follows (Along (step m) (Undisturbed m s.calls.length) t fs)
        (s.base.nodes p) p txId ops s.calls.length u)
      (follows_begin trivial hpeers ht)
      (fun hrun h hstays hstep => step_follows h hstays hstep (along_concat_iff hrun))
      (hlead.2 t ht) hfs
  obtain ⟨c', hk', -, -, -, htracks⟩ := hfollows.call
  obtain rfl : c = c' := Option.some.inj (hk.symm.trans hk')
  rw [hdone] at htracks
  obtain ⟨hdecided, happlied⟩ := htracks
  refine ⟨⟨hdecided.beginTx, hdecided.decideTx, hdecided.lt, happlied, ?_⟩, ?_⟩
  · exact hfollows.consumes.store (run_storeSound hs p).layout
  · rw [decidesOwn_iff hdecided.pos hdecided.beginTx hdecided.lt, ← hdecided.undisturbed]
    have hfirst : s.Undisturbed m s.calls.length (.coordinateTx p txId ops) := by
      refine ⟨fun c hc => ?_, fun c hc => ?_⟩ <;>
        exact absurd (List.getElem?_eq_some_iff.mp hc).1 (Nat.lt_irrefl _)
    constructor
    · refine fun h => ⟨hfirst, fun t' ht' => ?_⟩
      obtain rfl : t = t' := Option.some.inj (ht.symm.trans ht')
      exact h
    · exact fun h => h.2 t ht

/-- `b` votes and confirms the decision. -/
def committedTx : List TxEvent := askedB ++ grantedB ++ decisionConfirmed ++ [.resume 0 false]

theorem committed_outcome_own_one_call :
    ∃ s s' c, run (step twoNodes) (start twoNodes) electedA = some s ∧
      run (step twoNodes) s (firstTx :: committedTx) = some s' ∧
      s'.calls[s.calls.length]? = some c ∧ c.phase = .done (.committed 1 2 "t") ∧
      DecidesOwn (s.base.nodes "a") (s'.base.nodes "a") "t" [.put "x" "1"] 1 2 := by
  obtain ⟨s, hs, hpeers, hlead, hundisturbed, hany⟩ :
      ∃ s, run (step twoNodes) (start twoNodes) electedA = some s ∧
        (s.base.nodes "a").peers.isEmpty = false ∧
        Along (step twoNodes) (StaysLeader twoNodes "a") s (firstTx :: committedTx) ∧
        Along (step twoNodes) (Undisturbed twoNodes s.calls.length) s (firstTx :: committedTx) ∧
        (run (step twoNodes) s (firstTx :: committedTx)).any (fun s' =>
          decide ((s'.calls[s.calls.length]?).map TxCall.phase =
            some (.done (.committed 1 2 "t")))) = true :=
    exists_run_of_any (by decide +kernel)
  obtain ⟨s', hs', hcall⟩ := exists_run_of_any hany
  obtain ⟨c, hk, hdone⟩ := Option.map_eq_some_iff.mp hcall
  have hiff := (committed_outcome_own_iff hs hpeers hlead hs' hk hdone).2
  exact ⟨s, s', c, hs, hs', hk, hdone, hiff.mpr hundisturbed⟩

/-- An operator aborts the transaction while the coordinator waits for the
vote of `b`. -/
def abortedMeanwhile : List TxEvent :=
  askedB ++ .base (.proposeAbortTx "a" "t") :: grantedB ++ decisionConfirmed ++ [.resume 0 false]

theorem committed_outcome_of_aborted_transaction :
    ∃ s s' c, run (step twoNodes) (start twoNodes) electedA = some s ∧
      run (step twoNodes) s (firstTx :: abortedMeanwhile) = some s' ∧
      Along (step twoNodes) (StaysLeader twoNodes "a") s (firstTx :: abortedMeanwhile) ∧
      s'.calls[s.calls.length]? = some c ∧ c.phase = .done (.committed 1 3 "t") ∧
      ¬DecidesOwn (s.base.nodes "a") (s'.base.nodes "a") "t" [.put "x" "1"] 1 3 ∧
      (s'.base.nodes "a").stateMachine.get "x" = none := by
  obtain ⟨s, hs, hlead, hany⟩ :
      ∃ s, run (step twoNodes) (start twoNodes) electedA = some s ∧
        Along (step twoNodes) (StaysLeader twoNodes "a") s (firstTx :: abortedMeanwhile) ∧
        (run (step twoNodes) s (firstTx :: abortedMeanwhile)).any (fun s' =>
          decide ((s'.calls[s.calls.length]?).map TxCall.phase =
              some (.done (.committed 1 3 "t")) ∧
            creator "t" none ((s.base.nodes "a").lastApplied + 1)
              ((s.base.nodes "a").appliedSince (s'.base.nodes "a") 2) ≠ some 1 ∧
            (s'.base.nodes "a").stateMachine.get "x" = none)) = true :=
    exists_run_of_any (by decide +kernel)
  obtain ⟨s', hs', hcall, hcreator, hget⟩ := exists_run_of_any hany
  obtain ⟨c, hk, hdone⟩ := Option.map_eq_some_iff.mp hcall
  exact ⟨s, s', c, hs, hs', hlead, hk, hdone, fun h => hcreator h.creator, hget⟩

end TxCluster

end OxideKv
