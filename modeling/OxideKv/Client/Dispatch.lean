import OxideKv.Client.Protocol
import OxideKv.Raft.ClientWrites
import OxideKv.Raft.MembershipReply
import OxideKv.Raft.ReadIndex
import OxideKv.Raft.TxSteps

/-!
# A command on a node

`dispatch_command` of `client.rs` with everything it calls.  `CallPhase` is
where a call stands between two critical sections, `CallPhase.turn` what it
does when it gets the lock of the node, the vote of a peer or a timeout.  The
tasks that `sync_logs` spawns are not part of the call.

* `turn_serves`: the call keeps to its command, so that the reply is one of
  those in `Answers`.
* `turn_behind`: what the critical section behind a reply has found and done.
-/

namespace OxideKv

open RaftNode

inductive CallPhase where
  /-- The role check. -/
  | check (command : Command)
  | applyMutation (command : Command)
  /-- `linearizable_get`, before it asks whether the node is alone. -/
  | linearizableGet (key : String)
  /-- The write lock of a node that is alone. -/
  | readAlone (key : String)
  | beginRead (key : String)
  /-- The loop around `confirm_read`. -/
  | waitRead (key : String) (ri : ReadIndex)
  | readValue (key : String)
  | beginTx (txId : String) (ops : List TxOp)
  | coordinate (tx : TxCall)
  /-- `add_node` or `remove_node`. -/
  | changeMembers (request : MembershipRequest)
  | waitMembers (request : MembershipRequest) (phase : MembershipPhase)
  | abortTx (txId : String)
  | replied (reply : ClientReply)

/-- What a call goes on with. -/
inductive CallTurn where
  /-- The lock of the node.  `expired` says that the deadline of the loop has
  passed. -/
  | lock (clock : Clock) (expired : Bool)
  | vote (resp : VoteResponse)
  | voteFailed (failure : VoteFailure)
  /-- The outer timeout of `coordinate_tx`. -/
  | cancel

namespace MembershipRequest

def name : MembershipRequest → String
  | .addNode _ => "AddNode"
  | .removeNode _ => "RemoveNode"

/-- The field of the reply with the member. -/
def member : MembershipRequest → String × String
  | .addNode server => ("new_member", server.nodeId)
  | .removeNode nodeId => ("removed_member", nodeId)

def reply (request : MembershipRequest) : MembershipReply → ClientReply
  | .error e => .membershipRefused e
  | .notCommitted jointIndex => .jointTimeout request.name jointIndex
  | .simpleNotAppended jointIndex => .simplePending jointIndex
  | .ok jointIndex simpleIndex =>
      .memberChanged request.member.1 request.member.2 jointIndex simpleIndex

end MembershipRequest

namespace CallPhase

/-- The `match` of `dispatch_command`. -/
def route : Command → CallPhase
  | .set key value => .applyMutation (.set key value)
  | .delete key => .applyMutation (.delete key)
  | .get key => .linearizableGet key
  | .beginTx txId ops => .beginTx txId ops
  | .decideTx txId decision => .applyMutation (.decideTx txId decision)
  | .compact => .replied (.unsupported "compact not supported yet")
  | .addNode server => .changeMembers (.addNode server)
  | .removeNode nodeId => .changeMembers (.removeNode nodeId)
  | .installConfiguration _ =>
      .replied (.unsupported
        "InstallConfiguration is a leader-internal log entry; not a valid client command")
  | .abortTx txId => .abortTx txId

def ofMembership (request : MembershipRequest) : MembershipPhase → CallPhase
  | .replied r => .replied (request.reply r)
  | phase => .waitMembers request phase

def ofTx (tx : TxCall) : CallPhase :=
  match tx.phase with
  | .done outcome => .replied (.transaction outcome)
  | _ => .coordinate tx

/-- The result of a task that asks the next peer for its vote. -/
def collect (tx : TxCall) (result : String → VoteResult) : Option CallPhase :=
  match tx.phase with
  | .collect round results =>
      (round.peerAddrs[results.length]?).map fun addr =>
        .coordinate { tx with phase := round.collected (results ++ [result addr]) }
  | _ => none

/-- The reply of `apply_mutation`. -/
def mutationReply : Option Nat → ClientReply
  | some index => .proposed index
  | none => .notProposed

def valueReply : Option String → ClientReply
  | some value => .value value
  | none => .notFound

/-- The reply of `abort_tx`. -/
def abortReply (txId : String) : Except AbortTxError Nat → ClientReply
  | .ok decideIndex => .txAborted txId decideIndex
  | .error e => .abortRefused txId e

variable (maxElectionTimeout : Nat)

/-- A critical section. -/
def locked (clock : Clock) (expired : Bool) (n : RaftNode) :
    CallPhase → Option (RaftNode × CallPhase)
  | .check command => some (n, if n.state ≠ .leader then .replied .notLeader else route command)
  | .applyMutation command =>
      let (index, n') := n.applyMutation command
      some (n', .replied (mutationReply index))
  | .linearizableGet key => some (n, if n.peers.isEmpty then .readAlone key else .beginRead key)
  | .readAlone key =>
      if n.state ≠ .leader then some (n, .replied .notLeader)
      else some (n.applyLogs clock, .readValue key)
  | .beginRead key =>
      some (n, ((n.beginRead clock).map (CallPhase.waitRead key)).getD (.replied .notLeader))
  | .waitRead key ri =>
      if n.confirmRead clock maxElectionTimeout ri then some (n, .readValue key)
      else if expired then some (n, .replied .readTimeout)
      else some (n, .waitRead key ri)
  | .readValue key =>
      some (n, .replied (valueReply (n.stateMachine.get key)))
  | .beginTx txId ops => some (n, .coordinate (.begin n.nodeId txId ops n))
  | .coordinate tx =>
      (tx.resume expired n).map fun turn =>
        (turn.node, ofTx { tx with phase := turn.phase, proposed := tx.proposed ++ turn.proposed })
  | .changeMembers request =>
      let call := MembershipCall.start request n
      some (call.node, ofMembership request call.phase)
  | .waitMembers request phase =>
      ((MembershipCall.mk n phase).step (.poll expired)).map fun call =>
        (call.node, ofMembership request call.phase)
  | .abortTx txId =>
      let (result, n') := n.proposeAbortTx txId
      some (n', .replied (abortReply txId result))
  | .replied _ => none

/-- The node and the call after a turn. -/
def turn (n : RaftNode) (phase : CallPhase) : CallTurn → Option (RaftNode × CallPhase)
  | .lock clock expired => phase.locked maxElectionTimeout clock expired n
  | .vote resp =>
      match phase with
      | .coordinate tx => (collect tx fun addr => (addr, .ok resp)).map fun phase => (n, phase)
      | _ => none
  | .voteFailed failure =>
      match phase with
      | .coordinate tx => (collect tx failure.result).map fun phase => (n, phase)
      | _ => none
  | .cancel =>
      match phase with
      | .coordinate tx =>
          if tx.phase.awaits then
            some (n, .replied (.transaction
              (.aborted tx.txId "coordinator round exceeded 10s wall-clock bound")))
          else none
      | _ => none

/-! ## The reply -/

/-- The phase is one of a call for `c`. -/
def Serves : Command → CallPhase → Prop
  | c, .check c' => c' = c
  | c, .applyMutation c' => c' = c ∧ route c = .applyMutation c
  | c, .linearizableGet key | c, .readAlone key | c, .beginRead key | c, .waitRead key _
  | c, .readValue key => c = .get key
  | c, .beginTx txId ops => c = .beginTx txId ops
  | c, .coordinate tx => ∃ ops, c = .beginTx tx.txId ops
  | c, .changeMembers request => route c = .changeMembers request
  | c, .waitMembers request phase => route c = .changeMembers request ∧ ∀ r, phase ≠ .replied r
  | c, .abortTx txId => c = .abortTx txId
  | c, .replied r => Answers c r

theorem route_serves (c : Command) : (route c).Serves c := by
  cases c <;> simp [route, Serves, Answers]

end CallPhase

/-- A change is answered with what has become of it. -/
theorem MembershipRequest.answers {c : Command} {request : MembershipRequest}
    (h : CallPhase.route c = .changeMembers request) {r : MembershipReply}
    (hr : ∀ jointIndex simpleIndex, r = .ok jointIndex simpleIndex → simpleIndex = jointIndex + 1) :
    Answers c (request.reply r) := by
  cases c with
  | addNode server =>
    obtain rfl := CallPhase.changeMembers.inj h
    cases r with
    | error e => exact .inl ⟨e, rfl⟩
    | notCommitted i => exact .inr ⟨i, .inl rfl⟩
    | simpleNotAppended i => exact .inr ⟨i, .inr (.inl rfl)⟩
    | ok i k =>
      obtain rfl := hr i k rfl
      exact .inr ⟨i, .inr (.inr rfl)⟩
  | removeNode nodeId =>
    obtain rfl := CallPhase.changeMembers.inj h
    cases r with
    | error e => exact .inl ⟨e, rfl⟩
    | notCommitted i => exact .inr ⟨i, .inl rfl⟩
    | simpleNotAppended i => exact .inr ⟨i, .inr (.inl rfl)⟩
    | ok i k =>
      obtain rfl := hr i k rfl
      exact .inr ⟨i, .inr (.inr rfl)⟩
  | _ => cases h

theorem MembershipCall.step_poll {s s' : MembershipCall} {expired : Bool}
    (h : s.step (.poll expired) = some s') :
    s'.node = s.node ∧ ∀ jointIndex simpleIndex,
      s'.phase = .replied (.ok jointIndex simpleIndex) → simpleIndex = jointIndex + 1 := by
  simp only [step] at h
  split at h
  · split_ifs at h <;> obtain rfl := Option.some.inj h <;> simp_all
  · split_ifs at h <;> obtain rfl := Option.some.inj h <;> simp_all
  · cases h

theorem MembershipCall.start_phase (request : MembershipRequest) (n : RaftNode) :
    (∃ jointIndex, (start request n).phase = .waitCommit jointIndex) ∨
      ∃ e, (start request n).phase = .replied (.error e) := by
  unfold start
  split
  · exact .inl ⟨_, rfl⟩
  · exact .inr ⟨_, rfl⟩

/-- An outcome is about the transaction of the call. -/
theorem TxCall.Turns.done {c : TxCall} {n : RaftNode} {turn : TxTurn} (h : c.Turns n turn)
    {outcome : TxOutcome} (hdone : turn.phase = .done outcome) (ops : List TxOp) :
    Answers (.beginTx c.txId ops) (.transaction outcome) := by
  have hnotLeader : Answers (.beginTx c.txId ops) (.transaction (.notLeader c.txId)) :=
    .inr (.inr rfl)
  have hpropose : ∀ {r : Bool × RaftNode} {next : RaftNode → TxPhase},
      (∀ n' outcome, next n' ≠ .done outcome) →
      (TxTurn.ofPropose n r c.txId next).phase = .done outcome →
        Answers (.beginTx c.txId ops) (.transaction outcome) := by
    intro r next hnext hphase
    unfold TxTurn.ofPropose at hphase
    split_ifs at hphase with hok
    · exact absurd hphase (hnext _ _)
    · obtain rfl := TxPhase.done.inj hphase
      exact hnotLeader
  cases h with
  | batch | begins | decides => exact hpropose (by simp) hdone
  | batchApplied =>
    obtain rfl := TxPhase.done.inj hdone
    exact .inl ⟨_, _, rfl⟩
  | unreplicated =>
    obtain rfl := TxPhase.done.inj hdone
    exact .inr (.inl ⟨_, rfl⟩)
  | stepsDown | gaveUp =>
    obtain rfl := TxPhase.done.inj hdone
    exact hnotLeader
  | decided =>
    obtain rfl := TxPhase.done.inj hdone
    rename_i round decision abortReason i polled _ _
    cases decision
    · exact .inl ⟨_, _, rfl⟩
    · exact .inr (.inl ⟨_, rfl⟩)
  | asks =>
    simp only [TxRound.collected] at hdone
    split_ifs at hdone
  | waits hpolls =>
    cases hphase : c.phase <;> simp_all [TxPhase.again, TxPhase.polls]
  | begun | replicated | reads | counts | refuses => cases hdone

namespace CallPhase

variable {maxElectionTimeout : Nat} {c : Command} {n n' : RaftNode} {phase phase' : CallPhase}

theorem ofMembership_serves {request : MembershipRequest} {membership : MembershipPhase}
    (h : route c = .changeMembers request)
    (hr : ∀ jointIndex simpleIndex, membership = .replied (.ok jointIndex simpleIndex) →
      simpleIndex = jointIndex + 1) :
    (ofMembership request membership).Serves c := by
  cases membership with
  | replied r =>
    exact request.answers h fun i k hr' => hr i k (by rw [hr'])
  | waitCommit i => exact ⟨h, by simp⟩
  | waitSimple i => exact ⟨h, by simp⟩

theorem ofTx_serves (tx : TxCall) {ops : List TxOp}
    (h : ∀ outcome, tx.phase = .done outcome →
      Answers (.beginTx tx.txId ops) (.transaction outcome)) :
    (ofTx tx).Serves (.beginTx tx.txId ops) := by
  unfold ofTx
  split
  · rename_i outcome hdone
    exact h outcome hdone
  · exact ⟨ops, rfl⟩

theorem collect_serves {tx : TxCall} {ops : List TxOp} {result : String → VoteResult}
    (h : collect tx result = some phase) : phase.Serves (.beginTx tx.txId ops) := by
  unfold collect at h
  split at h
  · obtain ⟨addr, -, rfl⟩ := Option.map_eq_some_iff.mp h
    exact ⟨ops, rfl⟩
  · cases h

theorem mutationReply_answers (h : route c = .applyMutation c) (index : Option Nat) :
    Answers c (mutationReply index) := by
  have hanswer : (∃ i, mutationReply index = .proposed i) ∨
      mutationReply index = .notProposed := by
    cases index with
    | none => exact .inr rfl
    | some i => exact .inl ⟨i, rfl⟩
  cases c with
  | set | delete | decideTx => cases index <;> exact hanswer
  | _ => cases h

theorem valueReply_answers (key : String) (value : Option String) :
    Answers (.get key) (valueReply value) := by
  cases value with
  | none => exact .inr (.inl rfl)
  | some v => exact .inl ⟨v, rfl⟩

theorem abortReply_answers (txId : String) (result : Except AbortTxError Nat) :
    Answers (.abortTx txId) (abortReply txId result) := by
  cases result with
  | ok i => exact .inl ⟨i, rfl⟩
  | error e => exact .inr ⟨e, rfl⟩

theorem locked_serves {clock : Clock} {expired : Bool} (hserves : phase.Serves c)
    (h : phase.locked maxElectionTimeout clock expired n = some (n', phase')) :
    phase'.Serves c := by
  cases phase with
  | check command =>
    obtain rfl : command = c := hserves
    obtain ⟨-, rfl⟩ := Prod.mk.inj (Option.some.inj h)
    split_ifs
    · cases command <;> trivial
    · exact route_serves command
  | applyMutation command =>
    obtain ⟨rfl, hroute⟩ := hserves
    obtain ⟨-, rfl⟩ := Prod.mk.inj (Option.some.inj h)
    exact mutationReply_answers hroute _
  | linearizableGet key =>
    obtain ⟨-, rfl⟩ := Prod.mk.inj (Option.some.inj h)
    split_ifs <;> exact hserves
  | readAlone key =>
    obtain rfl : c = .get key := hserves
    simp only [locked] at h
    split_ifs at h <;> obtain ⟨-, rfl⟩ := Prod.mk.inj (Option.some.inj h)
    · trivial
    · rfl
  | beginRead key =>
    obtain rfl : c = .get key := hserves
    obtain ⟨-, rfl⟩ := Prod.mk.inj (Option.some.inj h)
    cases n.beginRead clock <;> simp [Serves, Answers]
  | waitRead key ri =>
    obtain rfl : c = .get key := hserves
    simp only [locked] at h
    split_ifs at h <;> obtain ⟨-, rfl⟩ := Prod.mk.inj (Option.some.inj h)
    · rfl
    · exact .inr (.inr rfl)
    · rfl
  | readValue key =>
    obtain rfl : c = .get key := hserves
    obtain ⟨-, rfl⟩ := Prod.mk.inj (Option.some.inj h)
    exact valueReply_answers key _
  | beginTx txId ops =>
    obtain rfl : c = .beginTx txId ops := hserves
    obtain ⟨-, rfl⟩ := Prod.mk.inj (Option.some.inj h)
    exact ⟨ops, rfl⟩
  | coordinate tx =>
    obtain ⟨ops, rfl⟩ := hserves
    obtain ⟨turn, hresume, heq⟩ := Option.map_eq_some_iff.mp h
    obtain ⟨-, rfl⟩ := Prod.mk.inj heq
    have hdone : ∀ outcome, turn.phase = .done outcome →
        Answers (.beginTx tx.txId ops) (.transaction outcome) :=
      fun outcome hdone => (TxCall.resume_turns hresume).done hdone ops
    exact ofTx_serves { tx with phase := turn.phase, proposed := tx.proposed ++ turn.proposed }
      hdone
  | changeMembers request =>
    obtain ⟨-, rfl⟩ := Prod.mk.inj (Option.some.inj h)
    refine ofMembership_serves hserves fun i k hr => ?_
    obtain ⟨j, hphase⟩ | ⟨e, hphase⟩ := MembershipCall.start_phase request n <;>
      rw [hphase] at hr <;> cases hr
  | waitMembers request membership =>
    obtain ⟨call, hstep, heq⟩ := Option.map_eq_some_iff.mp h
    obtain ⟨-, rfl⟩ := Prod.mk.inj heq
    exact ofMembership_serves hserves.1 (MembershipCall.step_poll hstep).2
  | abortTx txId =>
    obtain rfl : c = .abortTx txId := hserves
    obtain ⟨-, rfl⟩ := Prod.mk.inj (Option.some.inj h)
    exact abortReply_answers txId _
  | replied r => cases h

/-- The call keeps to its command. -/
theorem turn_serves {t : CallTurn} (hserves : phase.Serves c)
    (h : phase.turn maxElectionTimeout n t = some (n', phase')) : phase'.Serves c := by
  cases t with
  | lock clock expired => exact locked_serves hserves h
  | vote resp =>
    simp only [turn] at h
    split at h
    · obtain ⟨ops, rfl⟩ := hserves
      obtain ⟨phase, hcollect, heq⟩ := Option.map_eq_some_iff.mp h
      obtain ⟨-, rfl⟩ := Prod.mk.inj heq
      exact collect_serves hcollect
    · cases h
  | voteFailed failure =>
    simp only [turn] at h
    split at h
    · obtain ⟨ops, rfl⟩ := hserves
      obtain ⟨phase, hcollect, heq⟩ := Option.map_eq_some_iff.mp h
      obtain ⟨-, rfl⟩ := Prod.mk.inj heq
      exact collect_serves hcollect
    · cases h
  | cancel =>
    simp only [turn] at h
    split at h
    · obtain ⟨ops, rfl⟩ := hserves
      split_ifs at h
      obtain ⟨-, rfl⟩ := Prod.mk.inj (Option.some.inj h)
      exact .inr (.inl ⟨_, rfl⟩)
    · cases h

/-! ## The critical section behind a reply -/

/-- What the last turn of a call for `c` has found and done. -/
def Behind (c : Command) (n n' : RaftNode) : ClientReply → Prop
  | .notLeader => n.state ≠ .leader
  | .proposed index =>
      n.state = .leader ∧ index = n.log.length + 1 ∧ n'.log = n.log ++ [n.nextEntry c]
  | .value data => ∃ key, c = .get key ∧ n.stateMachine.get key = some data
  | .notFound => ∃ key, c = .get key ∧ n.stateMachine.get key = none
  | .txAborted txId decideIndex =>
      n.state = .leader ∧ n.stateMachine.isTxPending txId = true ∧
        decideIndex = n.log.length + 1 ∧ n'.log = n.log ++ [n.nextEntry (.decideTx txId .abort)]
  | _ => True

theorem applyMutation_behind (c : Command) (n : RaftNode) :
    Behind c n (n.applyMutation c).2 (mutationReply (n.applyMutation c).1) := by
  cases hindex : (n.applyMutation c).1 with
  | none => trivial
  | some i =>
    obtain ⟨hs, hi, storage, hn⟩ := applyMutation_eq_some hindex
    have hlog : (n.applyMutation c).2.log = n.log ++ [n.nextEntry c] := by
      show (propose c n).2.log = _
      rw [hn]
    exact ⟨hs, hi, hlog⟩

theorem proposeAbortTx_behind (c : Command) (txId : String) (n : RaftNode) :
    Behind c n (n.proposeAbortTx txId).2 (abortReply txId (n.proposeAbortTx txId).1) := by
  unfold proposeAbortTx
  split_ifs with hs hpending
  · trivial
  · trivial
  · split
    · trivial
    · rename_i n' happend
      obtain ⟨storage, -, -, ⟨heq, -⟩ | ⟨e, heq, -⟩⟩ :=
        appendEntry_cases (n.nextEntry (.decideTx txId .abort)) n
      · obtain ⟨-, rfl⟩ := Prod.mk.inj (happend.symm.trans heq)
        exact ⟨not_not.mp hs, by simpa using hpending, rfl, rfl⟩
      · cases happend.symm.trans heq

theorem valueReply_behind (key : String) (n n' : RaftNode) :
    Behind (.get key) n n' (valueReply (n.stateMachine.get key)) := by
  cases hget : n.stateMachine.get key with
  | none => exact ⟨key, rfl, hget⟩
  | some v => exact ⟨key, rfl, hget⟩

theorem ofMembership_behind {request : MembershipRequest} {membership : MembershipPhase}
    {r : ClientReply} (h : ofMembership request membership = .replied r) : Behind c n n' r := by
  cases membership with
  | replied result =>
    obtain rfl := CallPhase.replied.inj h
    cases result <;> trivial
  | waitCommit | waitSimple => cases h

theorem ofTx_behind {tx : TxCall} {r : ClientReply} (h : ofTx tx = .replied r) :
    Behind c n n' r := by
  unfold ofTx at h
  split at h
  · obtain rfl := CallPhase.replied.inj h
    trivial
  · cases h

theorem collect_ne_replied {tx : TxCall} {result : String → VoteResult} {r : ClientReply} :
    collect tx result ≠ some (.replied r) := by
  intro h
  unfold collect at h
  split at h
  · obtain ⟨addr, -, heq⟩ := Option.map_eq_some_iff.mp h
    cases heq
  · cases h

theorem locked_behind {clock : Clock} {expired : Bool} {r : ClientReply}
    (hserves : phase.Serves c)
    (h : phase.locked maxElectionTimeout clock expired n = some (n', .replied r)) :
    Behind c n n' r := by
  cases phase with
  | check command =>
    obtain ⟨rfl, hphase⟩ := Prod.mk.inj (Option.some.inj h)
    split_ifs at hphase with hs
    · obtain rfl := CallPhase.replied.inj hphase
      exact hs
    · cases command <;> cases hphase <;> trivial
  | applyMutation command =>
    obtain ⟨rfl, -⟩ := hserves
    obtain ⟨rfl, hphase⟩ := Prod.mk.inj (Option.some.inj h)
    obtain rfl := CallPhase.replied.inj hphase
    exact applyMutation_behind command n
  | linearizableGet key =>
    obtain ⟨-, hphase⟩ := Prod.mk.inj (Option.some.inj h)
    split_ifs at hphase
  | readAlone key =>
    simp only [locked] at h
    split_ifs at h with hs <;> obtain ⟨-, hphase⟩ := Prod.mk.inj (Option.some.inj h)
    · obtain rfl := CallPhase.replied.inj hphase
      exact hs
    · cases hphase
  | beginRead key =>
    obtain ⟨-, hphase⟩ := Prod.mk.inj (Option.some.inj h)
    unfold RaftNode.beginRead at hphase
    split_ifs at hphase with hs
    · obtain rfl := CallPhase.replied.inj hphase
      exact hs
    · cases hphase
  | waitRead key ri =>
    simp only [locked] at h
    split_ifs at h <;> obtain ⟨-, hphase⟩ := Prod.mk.inj (Option.some.inj h)
    · cases hphase
    · obtain rfl := CallPhase.replied.inj hphase
      trivial
    · cases hphase
  | readValue key =>
    obtain rfl : c = .get key := hserves
    obtain ⟨-, hphase⟩ := Prod.mk.inj (Option.some.inj h)
    obtain rfl := CallPhase.replied.inj hphase
    exact valueReply_behind key n n'
  | beginTx txId ops =>
    obtain ⟨-, hphase⟩ := Prod.mk.inj (Option.some.inj h)
    cases hphase
  | coordinate tx =>
    obtain ⟨turn, -, heq⟩ := Option.map_eq_some_iff.mp h
    exact ofTx_behind (Prod.mk.inj heq).2
  | changeMembers request =>
    exact ofMembership_behind (Prod.mk.inj (Option.some.inj h)).2
  | waitMembers request membership =>
    obtain ⟨call, -, heq⟩ := Option.map_eq_some_iff.mp h
    exact ofMembership_behind (Prod.mk.inj heq).2
  | abortTx txId =>
    obtain ⟨rfl, hphase⟩ := Prod.mk.inj (Option.some.inj h)
    obtain rfl := CallPhase.replied.inj hphase
    exact proposeAbortTx_behind c txId n
  | replied r => cases h

theorem turn_behind {t : CallTurn} {r : ClientReply} (hserves : phase.Serves c)
    (h : phase.turn maxElectionTimeout n t = some (n', .replied r)) : Behind c n n' r := by
  cases t with
  | lock clock expired => exact locked_behind hserves h
  | vote resp =>
    simp only [turn] at h
    split at h
    · obtain ⟨phase, hcollect, heq⟩ := Option.map_eq_some_iff.mp h
      exact absurd ((Prod.mk.inj heq).2 ▸ hcollect) collect_ne_replied
    · cases h
  | voteFailed failure =>
    simp only [turn] at h
    split at h
    · obtain ⟨phase, hcollect, heq⟩ := Option.map_eq_some_iff.mp h
      exact absurd ((Prod.mk.inj heq).2 ▸ hcollect) collect_ne_replied
    · cases h
  | cancel =>
    simp only [turn] at h
    split at h
    · split_ifs at h
      obtain ⟨-, hphase⟩ := Prod.mk.inj (Option.some.inj h)
      obtain rfl := CallPhase.replied.inj hphase
      trivial
    · cases h

end CallPhase

end OxideKv
