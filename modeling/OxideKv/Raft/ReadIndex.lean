import OxideKv.Raft.Confirmations
import OxideKv.Raft.StateMachineSafety

/-!
# The proof of leadership behind a read

`begin_read` takes the commit index and the time, and `confirm_read` lets the
read go when `last_quorum_heartbeat_at` is not before that time.  The closure
of `sync_logs` writes it on every accepted `AppendEntries`: for one peer,
whenever the request was sent and in whichever term, and an election does not
clear it.

`acksSince` is the evidence the read is after: a peer has accepted a request
of the present term that was sent since.  `AnswersRead` asks of the steps that
a reply which sets the time is such evidence.  One of them and the node are a
majority of three members; with more, `HeardMajority` counts the peers.
-/

namespace OxideKv

open RaftNode Run

/-- `ReadIndex` of `protocol.rs`. -/
structure ReadIndex where
  index : Nat
  issuedAt : Nat
deriving Repr, DecidableEq

namespace RaftNode

/-- `begin_read`, up to the call of `sync_logs`. -/
def beginRead (clock : Clock) (n : RaftNode) : Option ReadIndex :=
  if n.state ≠ .leader then none
  else some { index := n.commitIndex, issuedAt := clock.now }

/-- `confirm_read`. -/
def confirmRead (clock : Clock) (maxElectionTimeout : Nat) (ri : ReadIndex) (n : RaftNode) :
    Bool :=
  if n.state ≠ .leader then false
  else if n.lastApplied < ri.index then false
  else
    match n.lastQuorumHeartbeatAt with
    | none => false
    | some t => decide (clock.now - t < maxElectionTimeout) && decide (ri.issuedAt ≤ t)

theorem beginRead_eq_some {clock : Clock} {n : RaftNode} {ri : ReadIndex}
    (h : n.beginRead clock = some ri) :
    n.state = .leader ∧ ri.index = n.commitIndex ∧ ri.issuedAt = clock.now := by
  unfold beginRead at h
  split_ifs at h with hs
  obtain rfl := Option.some.inj h
  exact ⟨not_not.mp hs, rfl, rfl⟩

theorem confirmRead_eq_true {clock : Clock} {maxElectionTimeout : Nat} {ri : ReadIndex}
    {n : RaftNode} (h : n.confirmRead clock maxElectionTimeout ri = true) :
    n.state = .leader ∧ ri.index ≤ n.lastApplied ∧
      ∃ t, n.lastQuorumHeartbeatAt = some t ∧ ri.issuedAt ≤ t := by
  unfold confirmRead at h
  split_ifs at h with hs hindex
  cases hquorum : n.lastQuorumHeartbeatAt with
  | none =>
    rw [hquorum] at h
    cases h
  | some t =>
    rw [hquorum] at h
    simp only [Bool.and_eq_true, decide_eq_true_eq] at h
    exact ⟨not_not.mp hs, Nat.le_of_not_lt hindex, t, rfl, h.2⟩

end RaftNode

/-! ## Who has answered since -/

def Reply.isAck : Reply → Bool
  | .append r => r.success
  | _ => false

/-- An `AppendEntries` of `p` to `q` in `term`. -/
def Rpc.IsAppend (p q : String) (term : Nat) (rpc : Rpc) : Bool :=
  match rpc.request with
  | .appendEntries args => decide (rpc.src = p ∧ rpc.dst = q ∧ args.term = term)
  | _ => false

namespace Cluster

/-- `q` has accepted an `AppendEntries` of `p` in `term` whose number is
`mark` or above. -/
def acksSince (s : Cluster) (mark : Nat) (p : String) (term : Nat) (q : String) : Bool :=
  s.replies.any fun r =>
    decide (mark ≤ r.1) && r.2.isAck && (s.rpcs[r.1]?).any (Rpc.IsAppend p q term)

/-- With `p` itself, a majority has. -/
def QuorumSince (m : Membership) (s : Cluster) (mark : Nat) (p : String) (term : Nat) : Prop :=
  m.members.length < 2 * m.members.countP fun q => q == p || s.acksSince mark p term q

instance (m : Membership) (s : Cluster) (mark : Nat) (p : String) (term : Nat) :
    Decidable (s.QuorumSince m mark p term) := inferInstanceAs (Decidable (_ < _))

theorem acksSince_eq_true {s : Cluster} {mark : Nat} {p : String} {term : Nat} {q : String} :
    s.acksSince mark p term q = true ↔ ∃ i r rpc args, (i, Reply.append r) ∈ s.replies ∧
      mark ≤ i ∧ r.success = true ∧ s.rpcs[i]? = some rpc ∧ rpc.src = p ∧ rpc.dst = q ∧
      rpc.request = .appendEntries args ∧ args.term = term := by
  unfold acksSince
  simp only [List.any_eq_true, Bool.and_eq_true, decide_eq_true_eq, Option.any_eq_true]
  constructor
  · rintro ⟨⟨i, reply⟩, hmem, ⟨hmark, hack⟩, rpc, hrpc, happ⟩
    cases reply with
    | append r =>
      unfold Rpc.IsAppend at happ
      split at happ
      · rename_i args hreq
        obtain ⟨hsrc, hdst, hterm⟩ := of_decide_eq_true happ
        exact ⟨i, r, rpc, args, hmem, hmark, hack, hrpc, hsrc, hdst, hreq, hterm⟩
      · cases happ
    | vote r => cases hack
    | preVote r => cases hack
  · rintro ⟨i, r, rpc, args, hmem, hmark, hack, hrpc, hsrc, hdst, hreq, hterm⟩
    refine ⟨(i, .append r), hmem, ⟨hmark, hack⟩, rpc, hrpc, ?_⟩
    unfold Rpc.IsAppend
    rw [hreq]
    exact decide_eq_true ⟨hsrc, hdst, hterm⟩

theorem acksSince_keeps {s s' : Cluster} (h : Keeps s s') {mark : Nat} {p : String} {term : Nat}
    {q : String} (hack : s.acksSince mark p term q = true) :
    s'.acksSince mark p term q = true := by
  obtain ⟨i, r, rpc, args, hmem, hmark, hok, hrpc, hsrc, hdst, hreq, hterm⟩ :=
    acksSince_eq_true.mp hack
  obtain ⟨rpc', hrpc', hsrc', hdst', hreq'⟩ := h.rpc hrpc
  exact acksSince_eq_true.mpr ⟨i, r, rpc', args, h.replies.subset hmem, hmark, hok, hrpc',
    hsrc'.trans hsrc, hdst'.trans hdst, hreq'.trans hreq, hterm⟩

end Cluster

/-! ## The condition -/

namespace Cluster

/-- The request, with its number, that an accepted reply answers which `p`
processes as leader when the read has begun. -/
def ackFor (p : String) (ri : ReadIndex) (s : Cluster) : Event → Option (Nat × Rpc)
  | .receive j clock =>
      (s.replies[j]?).bind fun r => (s.rpcs[r.1]?).bind fun rpc =>
        if rpc.src = p ∧ r.2.isAck ∧ (s.nodes p).state = .leader ∧ ri.issuedAt ≤ clock.now then
          some (r.1, rpc)
        else none
  | _ => none

/-- `p` processes such a reply of `q` in `term`. -/
def hears (p : String) (ri : ReadIndex) (term : Nat) (q : String) (s : Cluster) (e : Event) :
    Bool :=
  (s.ackFor p ri e).any fun x => decide (x.2.dst = q ∧ (s.nodes p).currentTerm = term)

theorem ackFor_eq_some {p : String} {ri : ReadIndex} {s : Cluster} {e : Event} {x : Nat × Rpc}
    (h : s.ackFor p ri e = some x) :
    s.rpcs[x.1]? = some x.2 ∧ ∃ reply, (x.1, reply) ∈ s.replies ∧ reply.isAck = true := by
  cases e with
  | receive j clock =>
    obtain ⟨r, hj, h⟩ := Option.bind_eq_some_iff.mp h
    obtain ⟨rpc, hrpc, h⟩ := Option.bind_eq_some_iff.mp h
    split_ifs at h with hack
    obtain rfl := Option.some.inj h
    exact ⟨hrpc, r.2, List.mem_of_getElem? hj, hack.2.1⟩
  | _ => cases h

/-- The call that writes the time. -/
theorem ackFor_of_appendReply {p : String} {ri : ReadIndex} {s : Cluster} {e : Event}
    {clock : Clock} {peer : String} {args : AppendEntriesArgs} {reply : AppendReplyArgs}
    (hne : s.nodeEvent e = some (p, .appendReply clock peer args reply))
    (hok : reply.success = true) (hlead : (s.nodes p).state = .leader)
    (hle : ri.issuedAt ≤ clock.now) : ∃ x, s.ackFor p ri e = some x := by
  cases nodeCall_of_nodeEvent hne with
  | candidate h | propose h | proposeBatch h | proposeAbortTx h => cases h
  | @resume k clock' c hk h => cases c <;> cases h
  | @deliver i clock' rpc hrpc hdst h =>
    rcases rpc with ⟨src, dst, _ | _ | _, waiting⟩ <;> cases h
  | @receive j clock' r rpc hj hrpc hsrc h =>
    rcases processEvent_cases h with ⟨term, r', heq⟩ | heq | ⟨args', r', heq, -, hr⟩ <;> cases heq
    have hack : r.2.isAck = true := by rw [hr]; exact hok
    exact ⟨(r.1, rpc), Option.bind_eq_some_iff.mpr ⟨r, hj, Option.bind_eq_some_iff.mpr
      ⟨rpc, hrpc, if_pos ⟨hsrc, hack, hlead, hle⟩⟩⟩⟩

end Cluster

/-- The node is not elected with a time that is not from before the read. -/
def RaftNode.ForgetsAcks (ri : ReadIndex) (n : RaftNode) (e : NodeEvent) : Prop :=
  n.IsElection e → ∀ t ∈ n.lastQuorumHeartbeatAt, t < ri.issuedAt

instance (ri : ReadIndex) (n : RaftNode) (e : NodeEvent) : Decidable (n.ForgetsAcks ri e) :=
  inferInstanceAs (Decidable (n.IsElection e → _))

/-- An accepted reply that `p` processes as leader when the read has begun
answers a request that `p` has sent to a peer since, in its present term; and
`p` is not elected with a time that is left from an earlier term. -/
def AnswersRead (m : Membership) (p : String) (ri : ReadIndex) (mark : Nat) (s : Cluster)
    (e : Event) : Prop :=
  (∀ x ∈ s.ackFor p ri e, mark ≤ x.1 ∧
    ∃ q ∈ m.peers p, x.2.IsAppend p q (s.nodes p).currentTerm = true) ∧
  ∀ c ∈ s.nodeEvent e, c.1 = p → (s.nodes p).ForgetsAcks ri c.2

instance (m : Membership) (p : String) (ri : ReadIndex) (mark : Nat) (s : Cluster) (e : Event) :
    Decidable (AnswersRead m p ri mark s e) :=
  inferInstanceAs (Decidable ((∀ x ∈ s.ackFor p ri e, _ ∧ _) ∧ ∀ c ∈ s.nodeEvent e, _ → _))

/-- With `p` itself, a majority of the members: `p` has heard from them during
the run, as leader of `term`. -/
def HeardMajority (m : Membership) (p : String) (ri : ReadIndex) (term : Nat) (s : Cluster)
    (es : List Event) : Prop :=
  m.members.length < 2 * m.members.countP fun q =>
    q == p || decide (0 < countSteps (Cluster.step m) (Cluster.hears p ri term q) s es)

instance (m : Membership) (p : String) (ri : ReadIndex) (term : Nat) (s : Cluster)
    (es : List Event) : Decidable (HeardMajority m p ri term s es) :=
  inferInstanceAs (Decidable (_ < _))

/-- A time since the read stands for the answer of a peer since. -/
def ReadAnswered (m : Membership) (p : String) (ri : ReadIndex) (mark : Nat) (s : Cluster) :
    Prop :=
  (s.nodes p).state = .leader → ∀ t ∈ (s.nodes p).lastQuorumHeartbeatAt, ri.issuedAt ≤ t →
    ∃ q ∈ m.peers p, s.acksSince mark p (s.nodes p).currentTerm q = true

section Steps

variable {m : Membership} {p q : String} {ri : ReadIndex} {mark term : Nat} {s s' : Cluster}
  {e : Event}

/-- The reply is an answer since the read. -/
theorem AnswersRead.acksSince (h : AnswersRead m p ri mark s e) {x : Nat × Rpc}
    (hx : s.ackFor p ri e = some x) : x.2.dst ∈ m.peers p ∧
      s.acksSince mark p (s.nodes p).currentTerm x.2.dst = true := by
  obtain ⟨hmark, q, hq, happ⟩ := h.1 x hx
  obtain ⟨hrpc, reply, hmem, hack⟩ := Cluster.ackFor_eq_some hx
  obtain rfl : x.2.dst = q := by
    unfold Rpc.IsAppend at happ
    split at happ
    · exact (of_decide_eq_true happ).2.1
    · cases happ
  refine ⟨hq, List.any_eq_true.mpr ⟨(x.1, reply), hmem, ?_⟩⟩
  simp only [hmark, hack, hrpc, happ, decide_true, Option.any_some, Bool.and_self]

theorem step_readAnswered (h : ReadAnswered m p ri mark s) (hanswers : AnswersRead m p ri mark s e)
    (hstep : s.step m e = some s') : ReadAnswered m p ri mark s' := by
  have hkeeps := Cluster.step_keeps hstep
  -- it is enough to find the peer before the step, in the term after it
  suffices hbefore : (s'.nodes p).state = .leader → ∀ t ∈ (s'.nodes p).lastQuorumHeartbeatAt,
      ri.issuedAt ≤ t → ∃ q ∈ m.peers p, s.acksSince mark p (s'.nodes p).currentTerm q = true by
    intro hlead t ht hle
    obtain ⟨q, hq, hack⟩ := hbefore hlead t ht hle
    exact ⟨q, hq, Cluster.acksSince_keeps hkeeps hack⟩
  intro hlead t ht hle
  rcases Cluster.step_node hstep p with hsame | ⟨ne, hne, hnstep⟩ | ⟨clock, -, hstart⟩
  · rw [hsame] at hlead ht ⊢
    exact h hlead t ht hle
  · by_cases hold : (s.nodes p).state = .leader
    · rw [(step_leader hnstep hold hlead).1]
      rcases step_confirms hnstep with ⟨clock, peer, args, reply, rfl, hok, -, htime⟩ | ⟨-, -, htime⟩
      · obtain rfl : clock.now = t := Option.some.inj (htime.symm.trans ht)
        obtain ⟨x, hx⟩ := Cluster.ackFor_of_appendReply hne hok hold hle
        exact ⟨_, hanswers.acksSince hx⟩
      · exact h hold t (htime ▸ ht) hle
    · -- the node is elected, so the time is from before the read
      have helects := step_elects hnstep hold hlead
      have htime : t ∈ (s.nodes p).lastQuorumHeartbeatAt := by
        rcases step_confirms hnstep with ⟨clock, peer, args, reply, rfl, -⟩ | ⟨-, -, htime⟩
        · cases helects
        · exact htime ▸ ht
      exact absurd (hanswers.2 _ hne rfl helects.isElection t htime) (Nat.not_lt.mpr hle)
  · rw [Cluster.startup_follower hstart] at hlead
    cases hlead

/-- Whom `p` has heard from has answered since. -/
theorem step_heard {es : List Event} {u : Cluster}
    (h : 0 < countSteps (Cluster.step m) (Cluster.hears p ri term q) s es →
      u.acksSince mark p term q = true)
    (hanswers : AnswersRead m p ri mark u e) (hrun : run (Cluster.step m) s es = some u)
    (hstep : u.step m e = some s')
    (hheard : 0 < countSteps (Cluster.step m) (Cluster.hears p ri term q) s (es ++ [e])) :
    s'.acksSince mark p term q = true := by
  refine Cluster.acksSince_keeps (Cluster.step_keeps hstep) ?_
  rw [countSteps_concat hrun] at hheard
  by_cases hlast : u.hears p ri term q e = true
  · obtain ⟨x, hx, heq⟩ := (Option.any_eq_true _ _).mp hlast
    obtain ⟨rfl, rfl⟩ := of_decide_eq_true heq
    exact (hanswers.acksSince hx).2
  · rw [if_neg hlast] at hheard
    exact h hheard

end Steps

/-- When a read is confirmed, a majority has answered since it began, in the
term in which it is confirmed. -/
theorem read_index_quorum {m : Membership} {p : String} {s t : Cluster} {es : List Event}
    {clock clock' : Clock} {maxElectionTimeout : Nat} {ri : ReadIndex} (hp : p ∈ m.members)
    (hbegin : (s.nodes p).beginRead clock = some ri)
    (hbefore : ∀ x ∈ (s.nodes p).lastQuorumHeartbeatAt, x < clock.now)
    (halong : Along (Cluster.step m) (AnswersRead m p ri s.rpcs.length) s es)
    (hrun : run (Cluster.step m) s es = some t)
    (hheard : 3 < m.members.length → HeardMajority m p ri (t.nodes p).currentTerm s es)
    (hconfirm : (t.nodes p).confirmRead clock' maxElectionTimeout ri = true) :
    t.QuorumSince m s.rpcs.length p (t.nodes p).currentTerm := by
  obtain ⟨-, -, hissued⟩ := beginRead_eq_some hbegin
  obtain ⟨hlead, -, x, hx, hle⟩ := confirmRead_eq_true hconfirm
  have hstart : ReadAnswered m p ri s.rpcs.length s := fun _ x hx hle =>
    absurd (hbefore x hx) (Nat.not_lt.mpr (hissued ▸ hle))
  have hhistory : ReadAnswered m p ri s.rpcs.length t ∧ ∀ q term,
      0 < countSteps (Cluster.step m) (Cluster.hears p ri term q) s es →
        t.acksSince s.rpcs.length p term q = true :=
    run_history (H := fun es u => ReadAnswered m p ri s.rpcs.length u ∧ ∀ q term,
        0 < countSteps (Cluster.step m) (Cluster.hears p ri term q) s es →
          u.acksSince s.rpcs.length p term q = true)
      ⟨hstart, fun _ _ h => absurd h (Nat.lt_irrefl 0)⟩
      (fun hu h hanswers hstep => ⟨step_readAnswered h.1 hanswers hstep,
        fun q term => step_heard (h.2 q term) hanswers hu hstep⟩)
      halong hrun
  obtain ⟨hanswered, hacks⟩ := hhistory
  by_cases hmore : 3 < m.members.length
  · refine lt_of_lt_of_le (hheard hmore) (Nat.mul_le_mul_left 2 (List.countP_mono_left ?_))
    intro q _ hq
    rw [Bool.or_eq_true] at hq ⊢
    exact hq.imp_right fun h => hacks q _ (of_decide_eq_true h)
  · -- one peer and the node itself
    obtain ⟨q, hq, hack⟩ := hanswered hlead x hx hle
    have hpeer : 0 < (m.peers p).countP fun q =>
        q == p || t.acksSince s.rpcs.length p (t.nodes p).currentTerm q :=
      List.countP_pos_iff.mpr ⟨q, hq, Bool.or_eq_true_iff.mpr (Or.inr hack)⟩
    rw [Cluster.QuorumSince, ← (m.perm p hp).countP_eq, List.countP_cons_of_pos (by simp)]
    omega

/-- The read of a leader on an empty log. -/
def firstRead : ReadIndex := { index := 0, issuedAt := 0 }

/-- The heartbeat round of the read, up to the answer of `b`. -/
def readHeartbeat (rpc reply : Nat) : List Event :=
  [.leaderCheck "a", .resume 0 someClock, .resume 0 someClock, .deliver rpc someClock,
    .receive reply someClock]

/-- `a` is elected by `b` and `c`. -/
def electionOfFive : List Event :=
  [.becomeCandidate "a" someClock, .resume 0 someClock, .deliver 0 someClock,
    .deliver 1 someClock, .receive 0 someClock, .receive 1 someClock, .resume 0 someClock]

/-- The heartbeat round of the read, up to the answers of `b` and `c`. -/
def heartbeatOfFive : List Event :=
  [.leaderCheck "a", .resume 0 someClock, .resume 0 someClock, .resume 0 someClock,
    .deliver 4 someClock, .deliver 5 someClock, .receive 2 someClock, .receive 3 someClock]

theorem read_index_quorum_five_nodes :
    ∃ s t, run (Cluster.step fiveNodes) (Cluster.start fiveNodes) electionOfFive = some s ∧
      run (Cluster.step fiveNodes) s heartbeatOfFive = some t ∧
      (s.nodes "a").beginRead someClock = some firstRead ∧
      (t.nodes "a").confirmRead someClock 300 firstRead = true ∧
      t.QuorumSince fiveNodes s.rpcs.length "a" (t.nodes "a").currentTerm := by
  obtain ⟨s, hs, hbegin, hbefore, halong, hheard⟩ : ∃ s, run (Cluster.step fiveNodes)
      (Cluster.start fiveNodes) electionOfFive = some s ∧
      (s.nodes "a").beginRead someClock = some firstRead ∧
      (∀ x ∈ (s.nodes "a").lastQuorumHeartbeatAt, x < someClock.now) ∧
      Along (Cluster.step fiveNodes) (AnswersRead fiveNodes "a" firstRead s.rpcs.length) s
        heartbeatOfFive ∧
      HeardMajority fiveNodes "a" firstRead 1 s heartbeatOfFive :=
    exists_run_of_any (by decide +kernel)
  obtain ⟨t, ht, hconfirm, hterm⟩ : ∃ t, run (Cluster.step fiveNodes) (Cluster.start fiveNodes)
      (electionOfFive ++ heartbeatOfFive) = some t ∧
      (t.nodes "a").confirmRead someClock 300 firstRead = true ∧
      (t.nodes "a").currentTerm = 1 := exists_run_of_any (by decide +kernel)
  obtain ⟨s', hs', ht⟩ := run_append_eq_some.mp ht
  obtain rfl : s = s' := Option.some.inj (hs.symm.trans hs')
  exact ⟨s, t, hs, ht, hbegin, hconfirm, read_index_quorum (by decide) hbegin hbefore halong ht
    (fun _ => hterm ▸ hheard) hconfirm⟩

theorem read_confirmed_by_one_of_five :
    ∃ s t, run (Cluster.step fiveNodes) (Cluster.start fiveNodes) electionOfFive = some s ∧
      run (Cluster.step fiveNodes) s (readHeartbeat 4 2) = some t ∧
      (s.nodes "a").beginRead someClock = some firstRead ∧
      (s.nodes "a").lastQuorumHeartbeatAt = none ∧
      (t.nodes "a").confirmRead someClock 300 firstRead = true ∧
      ¬t.QuorumSince fiveNodes s.rpcs.length "a" (t.nodes "a").currentTerm := by
  obtain ⟨s, hs, hlen, hbegin, hnone⟩ : ∃ s, run (Cluster.step fiveNodes)
      (Cluster.start fiveNodes) electionOfFive = some s ∧ s.rpcs.length = 4 ∧
      (s.nodes "a").beginRead someClock = some firstRead ∧
      (s.nodes "a").lastQuorumHeartbeatAt = none := exists_run_of_any (by decide +kernel)
  obtain ⟨t, ht, hconfirm, hfew⟩ : ∃ t, run (Cluster.step fiveNodes) (Cluster.start fiveNodes)
      (electionOfFive ++ readHeartbeat 4 2) = some t ∧
      (t.nodes "a").confirmRead someClock 300 firstRead = true ∧
      ¬t.QuorumSince fiveNodes 4 "a" (t.nodes "a").currentTerm :=
    exists_run_of_any (by decide +kernel)
  obtain ⟨s', hs', ht⟩ := run_append_eq_some.mp ht
  obtain rfl : s = s' := Option.some.inj (hs.symm.trans hs')
  exact ⟨s, t, hs, ht, hbegin, hnone, hconfirm, by rw [hlen]; exact hfew⟩

end OxideKv
