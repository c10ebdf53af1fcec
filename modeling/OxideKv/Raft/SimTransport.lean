import OxideKv.Raft.CrossCheck
import OxideKv.Raft.WireCluster

/-!
# The simulated network

`sim_transport.rs` and `fault_scheduler.rs`: in the simulation a message goes
through the inbound channel of a node, one `serve` loop reads a channel, and the
answer goes back through a channel of its own to the task of `send_raft`.
Before a message is pushed the fault scheduler is asked.  `Network` has the
channels and says of each call how far `send_raft` is.

Time is left out.  A sleep ends at any moment, and the timeout of a call fires
at any moment while it pushes or waits.  It does not run while the call sleeps
through a delay: that comes first.

`load` counts what is on the way to a channel for a call.  What the network does
by itself only lowers it (`Spends`), and gives no call a reply (`Quiet`).
-/

namespace OxideKv

open RaftNode

/-! ## Messages -/

/-- `TransportError`. -/
inductive TransportError where
  | unreachable (peer : String)
  | timeout
  | protocol (message : String)
  | canceled
deriving Repr, DecidableEq

inductive InboundMessageBody where
  | raft (msg : RaftMessage)
  | vote (req : VoteRequest)
  | voteReply (resp : VoteResponse)

/-- `std::mem::discriminant`. -/
def RaftMessage.discriminant : RaftMessage → Nat
  | .requestVote _ => 0
  | .voteResponse _ => 1
  | .appendEntries _ => 2
  | .appendReply _ => 3
  | .installSnapshot _ => 4
  | .installSnapshotReply _ => 5
  | .requestPreVote _ => 6
  | .preVoteResponse _ => 7
  | .joinCluster _ => 8
  | .joinClusterResponse _ => 9

/-- `dispatch_raft_message`.  It is `none` when the handler panics. -/
def dispatchRaftMessage (clock : Clock) (n : RaftNode) :
    RaftMessage → Option (Except TransportError RaftMessage × RaftNode)
  | .requestVote args =>
      let (reply, n') := handleRequestVote clock args n
      some (.ok (.voteResponse reply), n')
  | .requestPreVote args =>
      let (reply, n') := handlePreVote clock args n
      some (.ok (.preVoteResponse reply), n')
  | .appendEntries args =>
      let (reply, n') := handleAppendEntries clock args n
      some (.ok (.appendReply reply), n')
  | .installSnapshot args =>
      (handleInstallSnapshot clock args n).map fun (reply, n') =>
        (.ok (.installSnapshotReply reply), n')
  | other =>
      some (.error (.protocol
        ("unexpected inbound reply variant: Discriminant(" ++
          toString other.discriminant ++ ")")), n)

/-- What the `serve` loop of `n` makes of a message. -/
def RaftNode.serveMessage (clock : Clock) (n : RaftNode) :
    InboundMessageBody → Option (Except TransportError InboundMessageBody × RaftNode)
  | .raft msg => (dispatchRaftMessage clock n msg).map fun (result, n') => (result.map .raft, n')
  | .vote req =>
      let (reply, n') := handleTxVoteRequest clock req n
      some (.ok (.voteReply reply), n')
  | .voteReply _ =>
      some (.error (.protocol "received VoteReply without a preceding Vote request"), n)

/-- The match of `send_raft` on the body of the answer. -/
def raftReply : InboundMessageBody → Except TransportError RaftMessage
  | .raft reply => .ok reply
  | .vote _ => .error (.protocol "raft peer returned a vote request instead of a raft reply")
  | .voteReply _ => .error (.protocol "raft peer returned a vote reply instead of a raft reply")

theorem dispatchRaftMessage_request (clock : Clock) (n : RaftNode) (req : Request) :
    dispatchRaftMessage clock n req.message =
      some (.ok (req.handle clock n).1.message, (req.handle clock n).2) := by
  cases req <;> rfl

/-! ## The fault scheduler -/

/-- `LinkId`: a link in one direction. -/
structure LinkId where
  src : String
  dst : String
deriving Repr, DecidableEq

inductive ScheduleOutcome where
  | deliver
  | drop
  | delay
  | duplicate
deriving Repr, DecidableEq

/-- `before_send` of a scheduler with the state `σ`. -/
abbrev FaultScheduler (σ : Type) := LinkId → InboundMessageBody → σ → ScheduleOutcome × σ

namespace FaultScheduler

def alwaysDeliver : FaultScheduler Unit := fun _ _ s => (.deliver, s)

def dropUnless (cond : LinkId → InboundMessageBody → Bool) : FaultScheduler Unit :=
  fun link body s => (if cond link body then .deliver else .drop, s)

def dropLink (src dst : String) : FaultScheduler Unit :=
  fun link _ s => (if link.src = src ∧ link.dst = dst then .drop else .deliver, s)

/-- `RandomDrop`; `rng` says whether the sample is below a half. -/
def randomDrop {σ : Type} (rng : σ → Bool × σ) : FaultScheduler σ :=
  fun _ _ s => (if (rng s).1 then .drop else .deliver, (rng s).2)

/-- `PartitionedNetwork`; the state is the set of links that are cut. -/
def partitionedNetwork : FaultScheduler (List LinkId) :=
  fun link _ partitioned => (if link ∈ partitioned then .drop else .deliver, partitioned)

/-- `RandomDelay`; `rng` says whether the sample is below `p_delay`. -/
def randomDelay {σ : Type} (rng : σ → Bool × σ) : FaultScheduler σ :=
  fun _ _ s => (if (rng s).1 then .delay else .deliver, (rng s).2)

def duplicateAll : FaultScheduler Unit := fun _ _ s => (.duplicate, s)

end FaultScheduler

/-- How often a message is pushed. -/
def ScheduleOutcome.pushes : ScheduleOutcome → Nat
  | .drop => 0
  | .deliver | .delay => 1
  | .duplicate => 2

/-! ## The network -/

/-- A message in a channel.  Nobody reads the answer to a duplicate. -/
structure InboundMessage where
  call : Nat
  awaited : Bool

/-- An inbound channel and the node whose `serve` loop reads it. -/
structure InboundChannel where
  owner : String
  isOpen : Bool
  queue : List InboundMessage

/-- How far `send_raft` is. -/
inductive SendPhase where
  | idle
  /-- The message is dropped; the call sleeps until its timeout. -/
  | dropped
  | delayed (channel : Nat)
  /-- The call waits for room in the channel. -/
  | sending (channel : Nat)
  | waiting
  | answered (result : Except TransportError InboundMessageBody)
  | returned (result : Except TransportError RaftMessage)

/-- The message is not in the channel `c` yet. -/
def SendPhase.holds (c : Nat) : SendPhase → Bool
  | .delayed c' | .sending c' => c' = c
  | _ => false

/-- The reply that the call has got. -/
def SendPhase.reply : SendPhase → Option InboundMessageBody
  | .answered (.ok body) => some body
  | .returned (.ok msg) => some (.raft msg)
  | _ => none

structure Network where
  channels : List InboundChannel
  /-- The channel a node is registered with. -/
  peers : String → Option Nat
  calls : Nat → SendPhase
  /-- The duplicates that are still to be pushed, each with its channel. -/
  copies : List (Nat × Nat)

namespace Network

def inboundCapacity : Nat := 256

def setPhase (i : Nat) (phase : SendPhase) (net : Network) : Network :=
  { net with calls := Function.update net.calls i phase }

/-- `register` and `re_register`. -/
def register (p : String) (net : Network) : Network :=
  { net with
    channels := net.channels ++ [{ owner := p, isOpen := true, queue := [] }]
    peers := Function.update net.peers p (some net.channels.length) }

/-- `send_raft` when the scheduler has been asked. -/
def schedule (i c : Nat) (net : Network) : ScheduleOutcome → Network
  | .drop => net.setPhase i .dropped
  | .delay => net.setPhase i (.delayed c)
  | .duplicate => { net.setPhase i (.sending c) with copies := net.copies ++ [(i, c)] }
  | .deliver => net.setPhase i (.sending c)

/-- The sleep of a call ends. -/
def wake (i : Nat) (net : Network) : Option Network :=
  match net.calls i with
  | .dropped => some (net.setPhase i (.returned (.error .timeout)))
  | .delayed c => some (net.setPhase i (.sending c))
  | _ => none

/-- `mpsc::Sender::send`, the part that puts the message into the channel. -/
def enqueue (c : Nat) (ch : InboundChannel) (msg : InboundMessage) (net : Network) :
    Option Network :=
  if ch.queue.length < inboundCapacity then
    some { net with channels := net.channels.set c { ch with queue := ch.queue ++ [msg] } }
  else none

/-- `push_with_reply` gets its message into the channel, or finds it closed. -/
def push (i : Nat) (net : Network) : Option Network :=
  match net.calls i with
  | .sending c => (net.channels[c]?).bind fun ch =>
      if ch.isOpen then
        (net.enqueue c ch { call := i, awaited := true }).map (setPhase i .waiting)
      else
        some (net.setPhase i
          (.returned (.error (.unreachable "peer inbound channel closed"))))
  | _ => none

/-- The task of a duplicate pushes it. -/
def pushCopy (k : Nat) (net : Network) : Option Network :=
  (net.copies[k]?).bind fun copy => (net.channels[copy.2]?).bind fun ch =>
    let net := { net with copies := net.copies.eraseIdx k }
    if ch.isOpen then net.enqueue copy.2 ch { call := copy.1, awaited := false } else some net

/-- `rpc_timeout` has passed. -/
def expire (i : Nat) (net : Network) : Option Network :=
  match net.calls i with
  | .sending _ | .waiting => some (net.setPhase i (.returned (.error .timeout)))
  | _ => none

/-- The next message of a channel, and whose channel it is. -/
def recv (c : Nat) (net : Network) : Option (InboundMessage × String × Network) :=
  (net.channels[c]?).bind fun ch =>
    match ch.queue with
    | [] => none
    | msg :: rest =>
        some (msg, ch.owner, { net with channels := net.channels.set c { ch with queue := rest } })

/-- The answer goes to the call, if that still waits. -/
def reply (msg : InboundMessage) (result : Except TransportError InboundMessageBody)
    (net : Network) : Network :=
  match msg.awaited, net.calls msg.call with
  | true, .waiting => net.setPhase msg.call (.answered result)
  | _, _ => net

/-- The `serve` loop of a channel ends and drops its messages. -/
def close (c : Nat) (net : Network) : Option Network :=
  (net.channels[c]?).map fun ch =>
    ch.queue.foldl
      (fun net msg => net.reply msg
        (.error (.protocol "reply oneshot canceled before delivery")))
      { net with channels := net.channels.set c { ch with isOpen := false, queue := [] } }

/-- A network on which the nodes are registered. -/
def start (members : List String) : Network :=
  members.foldl (fun net p => net.register p)
    { channels := [], peers := fun _ => none, calls := fun _ => .idle, copies := [] }

end Network

/-! ## What is on the way -/

namespace Network

variable {net net' : Network} {i j c : Nat}

def queuedIn (i c : Nat) (channels : List InboundChannel) : Nat :=
  (channels[c]?).elim 0 fun ch => ch.queue.countP fun msg => msg.call = i

/-- How often the message of call `i` is on the way to the channel `c`, or in
it. -/
def load (i c : Nat) (net : Network) : Nat :=
  (if (net.calls i).holds c then 1 else 0) + net.copies.count (i, c) +
    queuedIn i c net.channels

/-- The next message of the channel `c` is one of call `i`. -/
def heads (i c : Nat) (net : Network) : Bool :=
  (net.channels[c]?).any fun ch => ch.queue.head?.any fun msg => msg.call = i

theorem queuedIn_set {channels : List InboundChannel} {k : Nat} {ch : InboundChannel}
    (hk : channels[k]? = some ch) (ch' : InboundChannel) (i c : Nat) :
    queuedIn i c (channels.set k ch') + (if k = c then ch.queue.countP (·.call = i) else 0) =
      queuedIn i c channels + if k = c then ch'.queue.countP (·.call = i) else 0 := by
  unfold queuedIn
  by_cases hkc : k = c
  · subst hkc
    rw [List.getElem?_set_self (List.getElem?_eq_some_iff.mp hk).1, hk, if_pos rfl, if_pos rfl]
    exact Nat.add_comm _ _
  · rw [List.getElem?_set_ne hkc, if_neg hkc, if_neg hkc]

theorem setPhase_calls (phase : SendPhase) :
    (net.setPhase i phase).calls j = if j = i then phase else net.calls j :=
  Function.update_apply _ _ _ _

/-- A call that comes into another phase. -/
theorem load_setPhase_add (net : Network) (i j c : Nat) (phase : SendPhase) :
    (net.setPhase i phase).load j c + (if j = i ∧ (net.calls i).holds c then 1 else 0) =
      net.load j c + if j = i ∧ phase.holds c then 1 else 0 := by
  show (if ((net.setPhase i phase).calls j).holds c then 1 else 0) + net.copies.count (j, c) +
    queuedIn j c net.channels + _ = _
  rw [setPhase_calls]
  unfold load
  by_cases hji : j = i
  · simp only [hji, if_true, true_and]
    omega
  · simp only [hji, if_false, false_and]

/-- The channels keep their owners, and nodes are registered with channels of
their own. -/
structure KeepsOwners (net net' : Network) : Prop where
  channel : ∀ {c : Nat} {ch : InboundChannel}, net.channels[c]? = some ch →
    ∃ ch' : InboundChannel, net'.channels[c]? = some ch' ∧ ch'.owner = ch.owner
  peer : ∀ {p : String} {c : Nat}, net'.peers p = some c → net.peers p = some c ∨
    ∃ ch : InboundChannel, net'.channels[c]? = some ch ∧ ch.owner = p

theorem KeepsOwners.of_eq (hchannels : net'.channels = net.channels)
    (hpeers : net'.peers = net.peers) : KeepsOwners net net' :=
  ⟨fun {_ ch} hc => ⟨ch, hchannels ▸ hc, rfl⟩, fun hp => Or.inl (hpeers ▸ hp)⟩

theorem KeepsOwners.trans {net₁ net₂ net₃ : Network} (h : KeepsOwners net₁ net₂)
    (h' : KeepsOwners net₂ net₃) : KeepsOwners net₁ net₃ := by
  refine ⟨fun hc => ?_, fun hp => ?_⟩
  · obtain ⟨ch₁, hc₁, howner₁⟩ := h.channel hc
    obtain ⟨ch₂, hc₂, howner₂⟩ := h'.channel hc₁
    exact ⟨ch₂, hc₂, howner₂.trans howner₁⟩
  · rcases h'.peer hp with hp | hnew
    · rcases h.peer hp with hp | ⟨ch₁, hc₁, howner₁⟩
      · exact Or.inl hp
      · obtain ⟨ch₂, hc₂, howner₂⟩ := h'.channel hc₁
        exact Or.inr ⟨ch₂, hc₂, howner₂.trans howner₁⟩
    · exact Or.inr hnew

/-- A channel with another queue. -/
theorem keepsOwners_set {k : Nat} {ch : InboundChannel} (hk : net.channels[k]? = some ch)
    (ch' : InboundChannel) (howner : ch'.owner = ch.owner) :
    KeepsOwners net { net with channels := net.channels.set k ch' } := by
  refine ⟨fun {c ch₁} hc => ?_, fun hp => Or.inl hp⟩
  by_cases hkc : k = c
  · subst hkc
    obtain rfl : ch = ch₁ := Option.some.inj (hk.symm.trans hc)
    exact ⟨ch', List.getElem?_set_self (List.getElem?_eq_some_iff.mp hc).1, howner⟩
  · exact ⟨ch₁, (List.getElem?_set_ne hkc).trans hc, rfl⟩

/-- Nothing more is on the way, and no call is started. -/
structure Spends (net net' : Network) : Prop where
  load : ∀ j c, net'.load j c ≤ net.load j c
  idle : ∀ j, net'.calls j = .idle ↔ net.calls j = .idle
  owners : KeepsOwners net net'

theorem Spends.refl (net : Network) : Spends net net :=
  ⟨fun _ _ => le_rfl, fun _ => Iff.rfl, .of_eq rfl rfl⟩

theorem Spends.trans {net₁ net₂ net₃ : Network} (h : Spends net₁ net₂) (h' : Spends net₂ net₃) :
    Spends net₁ net₃ :=
  ⟨fun j c => (h'.load j c).trans (h.load j c), fun j => (h'.idle j).trans (h.idle j),
    h.owners.trans h'.owners⟩

/-- No call gets a reply. -/
structure Quiet (net net' : Network) : Prop extends Spends net net' where
  reply : ∀ {j body}, (net'.calls j).reply = some body → (net.calls j).reply = some body

theorem Quiet.refl (net : Network) : Quiet net net := ⟨.refl net, id⟩

theorem Quiet.trans {net₁ net₂ net₃ : Network} (h : Quiet net₁ net₂) (h' : Quiet net₂ net₃) :
    Quiet net₁ net₃ :=
  ⟨h.toSpends.trans h'.toSpends, h.reply ∘ h'.reply⟩

theorem setPhase_idle {phase : SendPhase} (hold : net.calls i ≠ .idle) (hnew : phase ≠ .idle) :
    (net.setPhase i phase).calls j = .idle ↔ net.calls j = .idle := by
  rw [setPhase_calls]
  split_ifs with hji
  · exact iff_of_false hnew (hji ▸ hold)
  · exact Iff.rfl

theorem setPhase_spends {phase : SendPhase} (hold : net.calls i ≠ .idle) (hnew : phase ≠ .idle)
    (h : ∀ c, phase.holds c → (net.calls i).holds c) : Spends net (net.setPhase i phase) := by
  refine ⟨fun j c => ?_, fun j => setPhase_idle hold hnew, .of_eq rfl rfl⟩
  have hadd := load_setPhase_add net i j c phase
  by_cases hholds : j = i ∧ phase.holds c
  · rw [if_pos hholds, if_pos ⟨hholds.1, h c hholds.2⟩] at hadd
    omega
  · rw [if_neg hholds] at hadd
    omega

theorem Spends.quiet {phase : SendPhase} (h : Spends net (net.setPhase i phase))
    (hphase : phase.reply = none) : Quiet net (net.setPhase i phase) := by
  refine ⟨h, fun {j body} hj => ?_⟩
  rw [setPhase_calls] at hj
  split_ifs at hj with hji
  · rw [hphase] at hj
    cases hj
  · exact hj

/-- A call that has nothing more to push. -/
theorem settle_spends {phase : SendPhase} (hold : net.calls i ≠ .idle) (hnew : phase ≠ .idle)
    (h : ∀ c, phase.holds c = false) : Spends net (net.setPhase i phase) :=
  setPhase_spends hold hnew fun c hc => by rw [h c] at hc; cases hc

/-- A call that fails. -/
theorem fail_quiet (hold : net.calls i ≠ .idle) (e : TransportError) :
    Quiet net (net.setPhase i (.returned (.error e))) :=
  (settle_spends hold (by simp) fun _ => rfl).quiet rfl

theorem register_quiet (p : String) : Quiet net (net.register p) := by
  refine ⟨⟨fun j c => ?_, fun _ => Iff.rfl, fun {c ch} hc => ⟨ch, ?_, rfl⟩, fun {q c} hq => ?_⟩,
    id⟩
  rotate_left
  · rw [register, List.getElem?_append_left (List.getElem?_eq_some_iff.mp hc).1]
    exact hc
  · unfold register at hq ⊢
    dsimp only at hq ⊢
    rw [Function.update_apply] at hq
    split_ifs at hq with hqp
    · subst hqp
      obtain rfl := Option.some.inj hq
      exact Or.inr ⟨_, List.getElem?_concat_length, rfl⟩
    · exact Or.inl hq
  have hqueued : queuedIn j c (net.register p).channels = queuedIn j c net.channels := by
    unfold queuedIn register
    dsimp only
    rcases Nat.lt_trichotomy c net.channels.length with hc | rfl | hc
    · rw [List.getElem?_append_left hc]
    · rw [List.getElem?_concat_length, List.getElem?_eq_none le_rfl]
      rfl
    · rw [List.getElem?_eq_none (by rw [List.length_append, List.length_singleton]; omega),
        List.getElem?_eq_none hc.le]
  unfold load
  rw [hqueued]
  exact le_rfl

theorem wake_quiet (h : net.wake i = some net') : Quiet net net' := by
  unfold wake at h
  split at h
  · rename_i hphase
    obtain rfl := Option.some.inj h
    exact fail_quiet (by simp [hphase]) _
  · rename_i hphase
    obtain rfl := Option.some.inj h
    have hspends : Spends net (net.setPhase i (.sending _)) :=
      setPhase_spends (by simp [hphase]) (by simp) fun c hc => by rw [hphase]; exact hc
    exact hspends.quiet rfl
  · cases h

theorem expire_quiet (h : net.expire i = some net') : Quiet net net' := by
  unfold expire at h
  split at h
  · rename_i hphase
    obtain rfl := Option.some.inj h
    exact fail_quiet (by simp [hphase]) _
  · rename_i hphase
    obtain rfl := Option.some.inj h
    exact fail_quiet (by simp [hphase]) _
  · cases h

theorem enqueue_calls {k : Nat} {ch : InboundChannel} {msg : InboundMessage}
    (h : net.enqueue k ch msg = some net') : net'.calls = net.calls := by
  unfold enqueue at h
  split_ifs at h
  obtain rfl := Option.some.inj h
  rfl

theorem enqueue_owners {k : Nat} {ch : InboundChannel} {msg : InboundMessage}
    (hk : net.channels[k]? = some ch) (h : net.enqueue k ch msg = some net') :
    KeepsOwners net net' := by
  unfold enqueue at h
  split_ifs at h
  obtain rfl := Option.some.inj h
  exact keepsOwners_set hk _ rfl

/-- One message more in a channel. -/
theorem load_enqueue {k : Nat} {ch : InboundChannel} {msg : InboundMessage}
    (hk : net.channels[k]? = some ch) (h : net.enqueue k ch msg = some net') :
    net'.load j c = net.load j c + if k = c ∧ msg.call = j then 1 else 0 := by
  unfold enqueue at h
  split_ifs at h
  obtain rfl := Option.some.inj h
  have hset := queuedIn_set hk { ch with queue := ch.queue ++ [msg] } j c
  rw [List.countP_append, List.countP_singleton] at hset
  unfold load
  dsimp only
  by_cases hkc : k = c
  · by_cases hcall : msg.call = j
    · simp only [hkc, hcall, decide_true, if_true, and_self] at hset ⊢
      omega
    · simp only [hkc, hcall, decide_false, if_true, and_false, if_false] at hset ⊢
      simp at hset ⊢
      omega
  · simp only [hkc, if_false, false_and] at hset ⊢
    omega

/-- The message is in the channel, and no longer with the call. -/
theorem push_quiet (h : net.push i = some net') : Quiet net net' := by
  unfold push at h
  split at h
  · rename_i k hphase
    obtain ⟨ch, hk, h⟩ := Option.bind_eq_some_iff.mp h
    split_ifs at h
    · obtain ⟨net₁, henqueue, rfl⟩ := Option.map_eq_some_iff.mp h
      have hcalls := enqueue_calls henqueue
      refine ⟨⟨fun j c => ?_, fun j => ?_,
        (enqueue_owners hk henqueue).trans (.of_eq rfl rfl)⟩, fun {j body} hj => ?_⟩
      · have hload := load_enqueue (j := j) (c := c) hk henqueue
        have hadd := load_setPhase_add net₁ i j c .waiting
        rw [hcalls, hphase] at hadd
        simp only [SendPhase.holds, decide_eq_true_eq, Bool.false_eq_true, and_false,
          if_false] at hadd
        have hsame : (j = i ∧ k = c) ↔ k = c ∧ i = j := by
          rw [and_comm, eq_comm (a := i)]
        simp only [hsame] at hadd
        dsimp only at hload
        omega
      · rw [setPhase_idle (by rw [hcalls, hphase]; simp) (by simp), hcalls]
      · rw [setPhase_calls] at hj
        split_ifs at hj
        · cases hj
        · exact hcalls ▸ hj
    · obtain rfl := Option.some.inj h
      exact fail_quiet (by simp [hphase]) _
  · cases h

theorem pushCopy_quiet {k : Nat} (h : net.pushCopy k = some net') : Quiet net net' := by
  obtain ⟨⟨i, c₀⟩, hcopy, h⟩ := Option.bind_eq_some_iff.mp h
  obtain ⟨ch, hc₀, h⟩ := Option.bind_eq_some_iff.mp h
  have herased : ∀ j c, ({ net with copies := net.copies.eraseIdx k } : Network).load j c +
      (if c₀ = c ∧ i = j then 1 else 0) = net.load j c := by
    intro j c
    obtain ⟨hlt, hget⟩ := List.getElem?_eq_some_iff.mp hcopy
    have hperm := (List.getElem_cons_eraseIdx_perm hlt).count_eq (j, c)
    rw [hget, List.count_cons] at hperm
    simp only [beq_iff_eq, Prod.mk.injEq, and_comm (b := c₀ = c)] at hperm
    unfold load
    dsimp only
    omega
  dsimp only at h
  split_ifs at h
  · have howners : KeepsOwners net { net with copies := net.copies.eraseIdx k } := .of_eq rfl rfl
    refine ⟨⟨fun j c => ?_, fun j => by rw [enqueue_calls h],
      howners.trans (enqueue_owners (by exact hc₀) h)⟩, fun hj => enqueue_calls h ▸ hj⟩
    have hload := load_enqueue (j := j) (c := c) (by exact hc₀) h
    have hless := herased j c
    dsimp only at hload
    omega
  · obtain rfl := Option.some.inj h
    exact ⟨⟨fun j c => Nat.le.intro (herased j c), fun j => Iff.rfl, .of_eq rfl rfl⟩, id⟩

/-- The answer reaches the call, or it is lost. -/
theorem reply_cases (net : Network) (msg : InboundMessage)
    (result : Except TransportError InboundMessageBody) :
    net.reply msg result = net ∨ net.calls msg.call = .waiting ∧
      net.reply msg result = net.setPhase msg.call (.answered result) := by
  unfold reply
  split
  · exact Or.inr ⟨by assumption, rfl⟩
  · exact Or.inl rfl

theorem reply_spends (net : Network) (msg : InboundMessage)
    (result : Except TransportError InboundMessageBody) : Spends net (net.reply msg result) := by
  rcases reply_cases net msg result with heq | ⟨hphase, heq⟩ <;> rw [heq]
  · exact .refl net
  · exact settle_spends (by simp [hphase]) (by simp) fun _ => rfl

theorem reply_error_quiet (msg : InboundMessage) (e : TransportError) :
    Quiet net (net.reply msg (.error e)) := by
  have hspends := reply_spends net msg (.error e)
  rcases reply_cases net msg (.error e) with heq | ⟨-, heq⟩
  · rw [heq]
    exact .refl net
  · rw [heq] at hspends ⊢
    exact hspends.quiet rfl

theorem close_quiet {c₀ : Nat} (h : net.close c₀ = some net') : Quiet net net' := by
  obtain ⟨ch, hc₀, rfl⟩ := Option.map_eq_some_iff.mp h
  have hreplies : ∀ (queue : List InboundMessage) (net : Network) (e : TransportError),
      Quiet net (queue.foldl (fun net msg => net.reply msg (.error e)) net) := by
    intro queue
    induction queue with
    | nil => exact fun net _ => .refl net
    | cons msg queue ih => exact fun net e => (reply_error_quiet msg e).trans (ih _ e)
  have hclosed : Quiet net { net with
      channels := net.channels.set c₀ { ch with isOpen := false, queue := [] } } := by
    refine ⟨⟨fun j c => ?_, fun j => Iff.rfl, keepsOwners_set hc₀ _ rfl⟩, id⟩
    have hset := queuedIn_set hc₀ { ch with isOpen := false, queue := [] } j c
    rw [List.countP_nil] at hset
    unfold load
    dsimp only
    split_ifs at hset ⊢ <;> omega
  exact hclosed.trans (hreplies ch.queue _ _)

theorem recv_cases {c₀ : Nat} {msg : InboundMessage} {owner : String}
    (h : net.recv c₀ = some (msg, owner, net')) :
    ∃ ch rest, net.channels[c₀]? = some ch ∧ ch.queue = msg :: rest ∧ ch.owner = owner ∧
      net' = { net with channels := net.channels.set c₀ { ch with queue := rest } } := by
  obtain ⟨ch, hc₀, h⟩ := Option.bind_eq_some_iff.mp h
  split at h
  · cases h
  · rename_i msg' rest hqueue
    obtain ⟨rfl, rfl, rfl⟩ := by simpa only [Option.some.injEq, Prod.mk.injEq] using h
    exact ⟨ch, rest, hc₀, hqueue, rfl, rfl⟩

theorem heads_of_queue {c₀ : Nat} {ch : InboundChannel} {msg : InboundMessage}
    {rest : List InboundMessage} (hc₀ : net.channels[c₀]? = some ch)
    (hqueue : ch.queue = msg :: rest) : net.heads i c₀ = decide (msg.call = i) := by
  unfold heads
  rw [hc₀, Option.any_some, hqueue]
  rfl

/-- A message is taken out of its channel. -/
theorem load_recv {c₀ : Nat} {msg : InboundMessage} {owner : String}
    (h : net.recv c₀ = some (msg, owner, net')) :
    net'.load i c + (if c₀ = c ∧ net.heads i c₀ then 1 else 0) = net.load i c := by
  obtain ⟨ch, rest, hc₀, hqueue, -, rfl⟩ := recv_cases h
  have hset := queuedIn_set hc₀ { ch with queue := rest } i c
  rw [hqueue, List.countP_cons] at hset
  unfold load
  dsimp only
  rw [heads_of_queue hc₀ hqueue]
  by_cases hkc : c₀ = c
  · simp only [hkc, if_true, true_and] at hset ⊢
    omega
  · simp only [hkc, if_false, false_and] at hset ⊢
    omega

theorem recv_owners {c₀ : Nat} {msg : InboundMessage} {owner : String}
    (h : net.recv c₀ = some (msg, owner, net')) : KeepsOwners net net' := by
  obtain ⟨ch, rest, hc₀, -, -, rfl⟩ := recv_cases h
  exact keepsOwners_set hc₀ _ rfl

theorem recv_calls {c₀ : Nat} {msg : InboundMessage} {owner : String}
    (h : net.recv c₀ = some (msg, owner, net')) : net'.calls = net.calls := by
  obtain ⟨ch, rest, -, -, -, rfl⟩ := recv_cases h
  rfl

theorem load_setPhase_idle (hidle : net.calls i = .idle) (hload : net.load i c = 0)
    (phase : SendPhase) :
    (net.setPhase i phase).load i c = if phase.holds c then 1 else 0 := by
  have hadd := load_setPhase_add net i i c phase
  rw [hidle, hload] at hadd
  simpa [show SendPhase.idle.holds c = false from rfl] using hadd

/-- What the scheduler makes of a call goes to the channel that was looked up. -/
theorem load_schedule (hidle : net.calls i = .idle) (hload : net.load i c = 0) (c₀ : Nat)
    (outcome : ScheduleOutcome) :
    (net.schedule i c₀ outcome).load i c = if c₀ = c then outcome.pushes else 0 := by
  have hphase := load_setPhase_idle hidle hload
  cases outcome with
  | drop =>
    refine (hphase .dropped).trans ?_
    rw [if_neg (by exact Bool.false_ne_true)]
    exact (ite_self 0).symm
  | deliver =>
    exact (hphase (.sending c₀)).trans (by simp [SendPhase.holds, ScheduleOutcome.pushes])
  | delay =>
    exact (hphase (.delayed c₀)).trans (by simp [SendPhase.holds, ScheduleOutcome.pushes])
  | duplicate =>
    have hcopies : (net.schedule i c₀ .duplicate).load i c =
        (net.setPhase i (.sending c₀)).load i c + if c₀ = c then 1 else 0 := by
      unfold load schedule setPhase
      dsimp only
      rw [List.count_append, List.count_singleton]
      simp only [beq_iff_eq, Prod.mk.injEq, true_and]
      omega
    rw [hcopies, hphase (.sending c₀)]
    simp only [SendPhase.holds, decide_eq_true_eq, ScheduleOutcome.pushes]
    split_ifs <;> rfl

theorem schedule_calls (net : Network) (i c₀ : Nat) (outcome : ScheduleOutcome) :
    ∃ phase : SendPhase, phase ≠ .idle ∧ phase.reply = none ∧
      (net.schedule i c₀ outcome).calls = (net.setPhase i phase).calls := by
  cases outcome with
  | drop => exact ⟨.dropped, by simp, rfl, rfl⟩
  | delay => exact ⟨.delayed c₀, by simp, rfl, rfl⟩
  | deliver | duplicate => exact ⟨.sending c₀, by simp, rfl, rfl⟩

theorem schedule_owners (c₀ : Nat) (outcome : ScheduleOutcome) :
    KeepsOwners net (net.schedule i c₀ outcome) := by
  cases outcome <;> exact .of_eq rfl rfl

/-- Other calls are not concerned. -/
theorem load_schedule_of_ne (hji : j ≠ i) (c₀ : Nat) (outcome : ScheduleOutcome) :
    (net.schedule i c₀ outcome).load j c = net.load j c := by
  have hphase : ∀ phase, (net.setPhase i phase).load j c = net.load j c := by
    intro phase
    simpa [hji] using load_setPhase_add net i j c phase
  cases outcome with
  | duplicate =>
    rw [← hphase (.sending c₀)]
    unfold load schedule setPhase
    dsimp only
    rw [List.count_append, List.count_singleton]
    simp [Ne.symm hji]
  | _ => exact hphase _

end Network


end OxideKv
