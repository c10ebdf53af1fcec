import OxideKv.Raft.Ballots

/-!
# At most one leader in a term

The relation between a cluster and the votes of its past is kept by every
step that takes no vote back, so two leaders of one term share a voter.

`KeepsVotes` is the condition on the state before a step.  It fails when a
late refusal of an old round of votes sets the term and clears the vote of a
node that has moved on (and when the term of a promoted node overflows).
-/

namespace OxideKv

open Quorum ReplicatedLog RaftNode Run

section Elections

variable {m : Membership} {b : Ballots} {s : Cluster}

/-- With a counted majority, a majority has voted for the candidate, with logs
that are not ahead of its own. -/
theorem VoteRel.quorum (h : VoteRel m b s) {p : String} (hp : p ∈ m.members)
    (hcall : CallOk m s.polls p (.voteQuorum (s.nodes p).currentTerm))
    (hs : (s.nodes p).state = .candidate) :
    (majority m.members).IsQuorum { q | ∃ l, b q (s.nodes p).currentTerm = some (p, l) ∧
      InfoCovers (lastLogInfo (s.nodes p).log) l } := by
  obtain ⟨k, tally, hk, hcand, hterm, hmaj⟩ := hcall
  have hpoll := h.poll hk
  obtain ⟨voters, hnodup, hcount, hvoters⟩ := hpoll.voters
  have hpeers : tally.round.peers = m.peers p := hcand ▸ hpoll.peers
  have hin : ∀ q ∈ voters, q ∈ m.peers p := by
    intro q hq
    obtain ⟨-, rpc, hr, hasks, rfl, -⟩ := hvoters q hq
    rw [← hpeers, ← hpoll.dsts]
    exact List.mem_map_of_mem (List.mem_filter.mpr ⟨hr, hasks⟩)
  have hself : p ∉ voters := fun hq =>
    (List.nodup_cons.mp (m.nodup_peers hp)).1 (hin p hq)
  refine majority_of_nodup (List.nodup_cons.mpr ⟨hself, hnodup⟩) ?_ ?_ ?_
  · intro q hq
    rcases List.mem_cons.mp hq with rfl | hq
    · exact hp
    · exact Membership.mem_of_mem_peers hp (hin q hq)
  · have hlen := m.length_peers hp
    unfold VoteRound.totalNodes at hmaj
    rw [hpeers] at hmaj
    rw [List.length_cons]
    omega
  · intro q hq
    rcases List.mem_cons.mp hq with rfl | hq
    · exact ⟨_, (h.votes q).candidate hs, infoCovers_self _⟩
    · obtain ⟨⟨l, hb⟩, -⟩ := hvoters q hq
      rw [hterm, hcand] at hb
      exact ⟨l, hb, (h.cast hb).covers rfl hs⟩

/-- The only member of a cluster is a majority. -/
theorem majority_alone {p : String} (hp : p ∈ m.members) (hpeers : m.peers p = [])
    {Q : Set String} (hQ : p ∈ Q) : (majority m.members).IsQuorum Q := by
  have hlen := m.length_peers hp
  rw [hpeers, List.length_nil] at hlen
  refine majority_of_nodup (List.nodup_singleton p) (by simpa using hp) ?_ (by simpa using hQ)
  rw [List.length_singleton]
  omega

/-- A node that a call elects has the votes of a majority. -/
theorem VoteRel.won (h : VoteRel m b s) {p : String} (hp : p ∈ m.members) {e : NodeEvent}
    {n' : RaftNode} (helects : Elects (s.nodes p) e n')
    (hterm : (s.nodes p).currentTerm ≤ n'.currentTerm)
    (hquorum : ∀ clock term, e = .voteQuorum clock term → CallOk m s.polls p (.voteQuorum term))
    (halone : ∀ clock, e = .preVoteAlone clock → m.peers p = []) :
    Won m (observe b p n') p n'.currentTerm := by
  obtain ⟨-, -, -, hcase⟩ := helects.leader
  cases helects with
  | quorum clock hs =>
    rcases hcase with ⟨-, hsame, -⟩ | ⟨hc, -⟩
    · rw [hsame]
      have hq := h.quorum hp (hquorum clock _ rfl) hs
      refine Won.grows ?_ (observe_grows b p _)
      exact (majority m.members).mono (fun q hq => hq.imp fun l hl => hl.1) hq
    · rw [hs] at hc
      cases hc
  | alone clock hs =>
    rcases hcase with ⟨hc, -⟩ | ⟨-, hnext, hvote⟩
    · rw [hs] at hc
      cases hc
    · have hsucc := u64Succ_of_le (hnext ▸ hterm)
      refine majority_alone hp (halone clock rfl)
        ⟨(becomeLeader clock (promoteToCandidate clock (s.nodes p))).log, ?_⟩
      rw [observe_self, (h.votes p).bound _ (by omega), hvote, (h.static p).nodeId]
      rfl

/-! ## The steps -/

/-- A call that changes the node gets the lock. -/
theorem VoteRel.resume_node (h : VoteRel m b s) {p : String} (hp : p ∈ m.members) {c : Call}
    (hc : CallOk m s.polls p c) (clock : Clock) {e : NodeEvent}
    (he : c.nodeEvent clock = some e) (hkeeps : (s.nodes p).KeepsTermAndVote e) :
    VoteRel m (observe b p (c.resume clock (s.nodes p)).node)
      (s.setNode p (c.resume clock (s.nodes p)).node) := by
  obtain ⟨hnone, -⟩ | ⟨e', he', hstep⟩ := c.resume_node clock (s.nodes p)
  · rw [hnone] at he
    cases he
  · obtain rfl : e = e' := Option.some.inj (he.symm.trans he')
    have hplain : e.IsPlain := by cases c <;> cases he <;> trivial
    have hasked : ∀ clock' args, e ≠ .requestVote clock' args := by
      rintro clock' args rfl
      cases c <;> cases he
    refine h.setNode hstep hkeeps hplain (fun _ _ he => absurd he (hasked _ _))
      fun hold hlead => ?_
    have helects := step_elects hstep hold hlead
    have hterm := ((step_termVoteLe_iff hstep).mpr hkeeps).term
    refine h.won hp helects hterm ?_ ?_
    · rintro clock' term rfl
      cases c <;> cases he
      exact hc
    · rintro clock' rfl
      cases c <;> cases he
      exact hc

/-- The records after a critical section on `p` that makes the call `e`, if it
makes one. -/
def recordIf (b : Ballots) (e : Option NodeEvent) (p : String) (n : RaftNode) : Ballots :=
  if e.isSome then observe b p n else b

theorem VoteRel.resume_recorded (h : VoteRel m b s) {p : String} (hp : p ∈ m.members) {c : Call}
    (hc : CallOk m s.polls p c) (clock : Clock)
    (hkeeps : ∀ e, c.nodeEvent clock = some e → (s.nodes p).KeepsTermAndVote e) :
    VoteRel m (recordIf b (c.nodeEvent clock) p (c.resume clock (s.nodes p)).node)
      (s.setNode p (c.resume clock (s.nodes p)).node) := by
  rcases c.resume_node clock (s.nodes p) with ⟨hnone, hsame⟩ | ⟨e, he, -⟩
  · rw [hnone, hsame, Cluster.setNode_self]
    exact h
  · rw [he]
    exact h.resume_node hp hc clock he (hkeeps e he)

/-- A call gets the lock. -/
theorem VoteRel.resume (h : VoteRel m b s) {p : String} (hp : p ∈ m.members) {c : Call}
    (hc : CallOk m s.polls p c) (clock : Clock)
    (hkeeps : ∀ e, c.nodeEvent clock = some e → (s.nodes p).KeepsTermAndVote e) :
    VoteRel m (recordIf b (c.nodeEvent clock) p (c.resume clock (s.nodes p)).node)
      (s.finish p (c.resume clock (s.nodes p))) := by
  have hnode := h.resume_recorded hp hc clock hkeeps
  have hresumed := Cluster.resumed clock p s c
  generalize (c.resume clock (s.nodes p)).node = n' at hnode hresumed ⊢
  generalize s.finish p (c.resume clock (s.nodes p)) = t at hresumed ⊢
  cases hresumed with
  | node => exact hnode
  | polls hnext =>
    refine (h.openPoll hp).addCalls hp fun c hc => ?_
    obtain ⟨rfl, halone⟩ := hnext c hc
    refine ⟨s.polls.length, { round := (s.nodes p).voteRound, votesReceived := 1 }, ?_,
      (h.static p).nodeId, rfl, ?_⟩
    · show (s.polls ++ [_])[s.polls.length]? = _
      simp
    · show (s.nodes p).voteRound.totalNodes / 2 < 1
      rw [halone]
      omega
  | probes => exact hnode.openProbe hp hc
  | @alone round halone =>
    refine hnode.addCalls hp fun c hin => ?_
    obtain rfl := List.mem_singleton.mp hin
    have hpeers : round.peers = m.peers p := hc
    exact hpeers.symm.trans (VoteRound.peers_eq_nil halone)
  | promoted =>
    refine hnode.addCalls hp fun c hin => ?_
    obtain rfl := List.mem_singleton.mp hin
    trivial
  | syncs hnext =>
    have hpeers : (s.nodes p).syncRound.peers = m.peers p := (h.static p).peers
    refine h.addCalls hp fun c hin => ?_
    obtain rfl := List.mem_singleton.mp hin
    rcases hnext with rfl | rfl
    · trivial
    · exact fun q hq => hpeers ▸ hq
  | @sends round peer rest args hsync =>
    have hrest : ∀ q ∈ peer :: rest, q ∈ m.peers p := hc
    have hsent : VoteRel m b (s.send p [(peer, args)]) := by
      refine h.send hp fun x hx => ?_
      obtain rfl := List.mem_singleton.mp hx
      exact ⟨hrest peer List.mem_cons_self, syncPeer_plain (h.static p).plain hsync⟩
    refine hsent.addCalls hp fun c hin => ?_
    obtain rfl := List.mem_singleton.mp hin
    exact fun q hq => hrest q (List.mem_cons_of_mem peer hq)

/-- A call that elects nobody. -/
theorem VoteRel.call_node (h : VoteRel m b s) {p : String} {e : NodeEvent} {n' : RaftNode}
    (hstep : (s.nodes p).step e = some n') (hkeeps : (s.nodes p).KeepsTermAndVote e)
    (hplain : e.IsPlain)
    (hasked : ∀ clock args, e = .requestVote clock args →
      args.candidateId ≠ p ∧ AskedBy (s.nodes args.candidateId) args)
    (hquorum : ∀ clock term, e ≠ .voteQuorum clock term)
    (halone : ∀ clock, e ≠ .preVoteAlone clock) :
    VoteRel m (observe b p n') (s.setNode p n') := by
  refine h.setNode hstep hkeeps hplain hasked fun hold hlead => ?_
  cases step_elects hstep hold hlead with
  | quorum clock _ => exact absurd rfl (hquorum clock _)
  | alone clock _ => exact absurd rfl (halone clock)

/-- The call elects nobody, and it is neither a request for a vote nor the two
ends of an `AppendEntries`. -/
def NodeEvent.isQuiet : NodeEvent → Bool
  | .requestVote _ _ | .voteQuorum _ _ | .preVoteAlone _ | .appendEntries _ _
  | .appendReply _ _ _ _ => false
  | _ => true

theorem VoteRel.call_quiet (h : VoteRel m b s) {p : String} {e : NodeEvent} {n' : RaftNode}
    (hstep : (s.nodes p).step e = some n') (hkeeps : (s.nodes p).KeepsTermAndVote e)
    (hplain : e.IsPlain) (hquiet : e.isQuiet = true) :
    VoteRel m (observe b p n') (s.setNode p n') := by
  refine h.call_node hstep hkeeps hplain ?_ ?_ ?_
  · rintro clock args rfl
    cases hquiet
  · rintro clock term rfl
    cases hquiet
  · rintro clock rfl
    cases hquiet

/-- The voter has recorded the vote that it grants. -/
theorem replyOk_handle (rpc : Rpc) (clock : Clock) {n : RaftNode}
    (hvotes : NodeVotes m (observe b rpc.dst (rpc.request.handle clock n).2) rpc.dst
      (rpc.request.handle clock n).2) :
    ReplyOk (observe b rpc.dst (rpc.request.handle clock n).2) rpc
      (rpc.request.handle clock n).1 := by
  intro k args r hreq hr hgranted
  rw [hreq] at hr hvotes ⊢
  obtain rfl : (handleRequestVote clock args n).1 = r := Reply.vote.inj hr
  have hvote := hvotes.vote
  show Granted (observe b rpc.dst (handleRequestVote clock args n).2) rpc.dst args
  simp only [Request.handle] at hvote
  rcases handleRequestVote_cases clock args n with
    ⟨_, heq⟩ | ⟨hle, ⟨hcan, hlog, storage, -, -, -, heq⟩ | heq⟩
  · rw [heq] at hgranted
    cases hgranted
  · rw [heq] at hvote ⊢
    obtain ⟨x, hx, hfst⟩ := Option.map_eq_some_iff.mp hvote.symm
    exact ⟨x.2, hx.trans (congrArg some (Prod.ext hfst rfl))⟩
  · rw [heq] at hgranted
    cases hgranted

/-- The requester of a vote waits in a term it has reached. -/
theorem VoteRel.askedBy (h : VoteRel m b s) {rpc : Rpc} (hr : rpc ∈ s.rpcs) {k : Nat}
    {args : RequestVoteArgs} (hreq : rpc.request = .requestVote k args) :
    args.candidateId ≠ rpc.dst ∧ AskedBy (s.nodes args.candidateId) args := by
  have hok := h.rpc rpc hr
  obtain ⟨tally, hk, rfl, hcand⟩ : ∃ tally, s.polls[k]? = some tally ∧ tally.round.args = args ∧
      args.candidateId = rpc.src := by
    have := hok.request
    rwa [hreq] at this
  refine ⟨fun heq => ?_, (h.poll hk).asked⟩
  have hdst := hok.dst
  rw [← heq, hcand] at hdst
  exact (List.nodup_cons.mp (m.nodup_peers hok.src)).1 hdst

/-- A node handles a request. -/
theorem VoteRel.deliver (h : VoteRel m b s) {i : Nat} {rpc : Rpc} (hrpc : s.rpcs[i]? = some rpc)
    (clock : Clock) :
    VoteRel m (observe b rpc.dst (rpc.request.handle clock (s.nodes rpc.dst)).2)
      { s.setNode rpc.dst (rpc.request.handle clock (s.nodes rpc.dst)).2 with
        replies := s.replies ++ [(i, (rpc.request.handle clock (s.nodes rpc.dst)).1)] } := by
  have hmem := List.mem_of_getElem? hrpc
  have hstep : (s.nodes rpc.dst).step (rpc.request.nodeEvent clock) =
      some (rpc.request.handle clock (s.nodes rpc.dst)).2 := by
    cases rpc.request <;> rfl
  have hplain : (rpc.request.nodeEvent clock).IsPlain := by
    have hreq := (h.rpc rpc hmem).request
    cases hr : rpc.request with
    | appendEntries args =>
      rw [hr] at hreq
      exact hreq
    | _ => trivial
  have hset := h.call_node hstep (by cases rpc.request <;> trivial) hplain
    (fun clock' args he => by
      cases hr : rpc.request with
      | requestVote k args' =>
        rw [hr] at he
        cases he
        exact h.askedBy hmem hr
      | _ => rw [hr] at he; cases he)
    (fun _ _ => by cases rpc.request <;> nofun) (fun _ => by cases rpc.request <;> nofun)
  have hvotes := hset.votes rpc.dst
  rw [Cluster.setNode_nodes_self] at hvotes
  exact hset.addReply hrpc (replyOk_handle rpc clock hvotes)

/-- The task of a waiting RPC processes a reply. -/
theorem VoteRel.receive (h : VoteRel m b s) {i : Nat} {rpc : Rpc}
    (hrpc : s.rpcs[i]? = some rpc) (hwait : rpc.waiting = true) {reply : Reply}
    (hok : ReplyOk b rpc reply) (clock : Clock)
    (hkeeps : ∀ e, Cluster.processEvent clock rpc reply = some e →
      (s.nodes rpc.src).KeepsTermAndVote e) {s' : Cluster}
    (hs' : Cluster.process clock rpc reply
      { s with rpcs := s.rpcs.set i { rpc with waiting := false } } = s') :
    VoteRel m (recordIf b (Cluster.processEvent clock rpc reply) rpc.src (s'.nodes rpc.src))
      s' := by
  have hsrc := (h.rpc rpc (List.mem_of_getElem? hrpc)).src
  have hlater := h.later (later_set hrpc)
  have hcall : ∀ {e : NodeEvent} {n' : RaftNode}, (s.nodes rpc.src).step e = some n' →
      Cluster.processEvent clock rpc reply = some e → e.IsPlain →
      (∀ clock args, e ≠ .requestVote clock args) → (∀ clock term, e ≠ .voteQuorum clock term) →
      (∀ clock, e ≠ .preVoteAlone clock) →
      VoteRel m (observe b rpc.src n')
        (Cluster.setNode rpc.src n'
          { s with rpcs := s.rpcs.set i { rpc with waiting := false } }) := by
    intro e n' hstep he hplain hno hquorum halone
    exact hlater.call_node hstep (hkeeps e he) hplain (fun _ _ heq => absurd heq (hno _ _)) hquorum
      halone
  subst hs'
  cases hreq : rpc.request with
  | requestVote k args =>
    cases reply with
    | vote r =>
      by_cases hgranted : r.voteGranted = true
      · have hcount := h.countVote hrpc hwait hreq (hok k args r hreq rfl hgranted)
        simpa [recordIf, Cluster.process, Cluster.processEvent, hreq, hgranted] using hcount
      · have he : Cluster.processEvent clock rpc (.vote r) = some (.voteRefused args.term r) := by
          simp [Cluster.processEvent, hreq, hgranted]
        have hset := hcall rfl he trivial nofun nofun nofun
        simpa [recordIf, he, Cluster.process, hreq, hgranted] using hset
    | _ => simpa [recordIf, Cluster.process, Cluster.processEvent, hreq] using hlater
  | preVote k args =>
    cases reply with
    | preVote r =>
      by_cases hlt : args.term < r.term
      · have he : Cluster.processEvent clock rpc (.preVote r) = some .preVoteStale := by
          simp [Cluster.processEvent, hreq, hlt]
        have hset := hcall rfl he trivial nofun nofun nofun
        simpa [recordIf, he, Cluster.process, hreq, hlt] using hset
      · by_cases hgranted : r.voteGranted = true
        · have hcount := hlater.countProbe hsrc k
          simpa [recordIf, Cluster.process, Cluster.processEvent, hreq, hlt, hgranted] using hcount
        · simpa [recordIf, Cluster.process, Cluster.processEvent, hreq, hlt, hgranted] using hlater
    | _ => simpa [recordIf, Cluster.process, Cluster.processEvent, hreq] using hlater
  | appendEntries args =>
    cases reply with
    | append r =>
      have he : Cluster.processEvent clock rpc (.append r) =
          some (.appendReply clock rpc.dst args r) := by
        simp [Cluster.processEvent, hreq]
      have hset := hcall rfl he trivial nofun nofun nofun
      simpa [recordIf, he, Cluster.process, hreq] using hset
    | _ => simpa [recordIf, Cluster.process, Cluster.processEvent, hreq] using hlater

end Elections

/-! ## Runs -/

instance (n : RaftNode) (e : NodeEvent) : Decidable (n.KeepsTermAndVote e) :=
  decidable_of_iff
    ((match e with
      | .becomeCandidate _ => decide (n.currentTerm + 1 ≠ 2 ^ 64)
      | .preVoteAlone _ | .preVoteQuorum _ =>
          decide (n.state = .preCandidate → n.currentTerm + 1 ≠ 2 ^ 64)
      | .voteRefused term reply => decide (term < reply.term → n.MayAdopt reply.term)
      | .coordinatorStepDown leaderTerm resp =>
          decide (leaderTerm < resp.term → n.state = .leader → n.MayAdopt resp.term)
      | _ => true) = true) (by cases e <;> simp only [KeepsTermAndVote, decide_eq_true_eq])

/-- The call that a step makes on a node keeps its term and its vote. -/
def Cluster.KeepsVotes (s : Cluster) (e : Event) : Prop :=
  ∀ c ∈ s.nodeEvent e, (s.nodes c.1).KeepsTermAndVote c.2

instance (s : Cluster) (e : Event) : Decidable (s.KeepsVotes e) :=
  inferInstanceAs (Decidable (∀ c ∈ s.nodeEvent e, (s.nodes c.1).KeepsTermAndVote c.2))

/-- No node crashes. -/
def Event.IsCrash : Event → Prop
  | .restart _ _ => True
  | _ => False

instance (e : Event) : Decidable e.IsCrash := by
  cases e <;> unfold Event.IsCrash <;> infer_instance

/-- The records after a step. -/
def ballotsAfter (b : Ballots) (s s' : Cluster) (e : Event) : Ballots :=
  (s.nodeEvent e).elim b fun c => observe b c.1 (s'.nodes c.1)

theorem ballotsAfter_grows (b : Ballots) (s s' : Cluster) (e : Event) :
    BallotsGrow b (ballotsAfter b s s' e) := by
  unfold ballotsAfter
  cases s.nodeEvent e with
  | none => exact fun _ _ _ h => h
  | some c => exact observe_grows b c.1 _

theorem start_voteRel (m : Membership) : VoteRel m (fun _ _ => none) (Cluster.start m) where
  static := fun _ => ⟨rfl, rfl, rfl, nofun⟩
  votes := fun _ => ⟨rfl, fun _ _ => rfl, nofun, nofun⟩
  cast := nofun
  member := nofun
  call := nofun
  poll := nofun
  rpc := nofun
  reply := nofun

/-- A step that takes no vote back. -/
theorem step_voteRel {m : Membership} {b : Ballots} {s s' : Cluster} {e : Event}
    (h : VoteRel m b s) (hcrash : ¬e.IsCrash) (hkeeps : s.KeepsVotes e)
    (hstep : s.step m e = some s') : VoteRel m (ballotsAfter b s s' e) s' := by
  cases e with
  | becomeCandidate p clock =>
    simp only [Cluster.step] at hstep
    split_ifs at hstep with hp
    obtain rfl := Option.some.inj hstep
    have hset := h.call_quiet (e := .becomeCandidate clock) rfl (hkeeps _ rfl) trivial rfl
    have hadd : VoteRel m (observe b p (promoteToCandidate clock (s.nodes p)))
        (Cluster.addCalls p [.requestVotes]
          (Cluster.setNode p (promoteToCandidate clock (s.nodes p)) s)) :=
      hset.addCalls hp (by simp [CallOk])
    simpa [ballotsAfter, Cluster.nodeEvent, Cluster.addCalls] using hadd
  | becomePreCandidate p =>
    simp only [Cluster.step] at hstep
    split_ifs at hstep with hp
    obtain rfl := Option.some.inj hstep
    exact h.addCalls hp fun c hc => by
      obtain rfl := List.mem_singleton.mp hc
      exact (h.static p).peers
  | propose p command =>
    simp only [Cluster.step] at hstep
    split_ifs at hstep with hp
    obtain rfl := Option.some.inj hstep
    have hset := h.call_quiet (p := p) (e := .propose command) rfl trivial hp.2 rfl
    simpa [ballotsAfter, Cluster.nodeEvent] using hset
  | proposeBatch p commands =>
    simp only [Cluster.step] at hstep
    split_ifs at hstep with hp
    obtain rfl := Option.some.inj hstep
    have hset := h.call_quiet (p := p) (e := .proposeBatch commands) rfl trivial
      (List.all_eq_true.mp hp.2) rfl
    simpa [ballotsAfter, Cluster.nodeEvent] using hset
  | proposeAbortTx p txId =>
    simp only [Cluster.step] at hstep
    split_ifs at hstep with hp
    obtain rfl := Option.some.inj hstep
    have hset := h.call_quiet (p := p) (e := .proposeAbortTx txId) rfl trivial trivial rfl
    simpa [ballotsAfter, Cluster.nodeEvent] using hset
  | leaderCheck p =>
    simp only [Cluster.step] at hstep
    split_ifs at hstep with hp hlead
    · obtain rfl := Option.some.inj hstep
      exact h.addCalls hp (by simp [CallOk])
    · obtain rfl := Option.some.inj hstep
      exact h
  | resume k clock =>
    simp only [Cluster.step, Option.map_eq_some_iff] at hstep
    obtain ⟨c, hk, rfl⟩ := hstep
    have hmem := List.mem_of_getElem? hk
    have hres := (h.eraseCall k).resume (h.member c hmem) (h.call c hmem) clock
      fun e he => hkeeps (c.1, e) (by simp [Cluster.nodeEvent, hk, he])
    have hb : recordIf b (c.2.nodeEvent clock) c.1 (c.2.resume clock (s.nodes c.1)).node =
        ballotsAfter b s (Cluster.finish c.1 (c.2.resume clock (s.nodes c.1))
          { s with calls := s.calls.eraseIdx k }) (.resume k clock) := by
      unfold ballotsAfter recordIf
      cases he : c.2.nodeEvent clock <;> simp [Cluster.nodeEvent, hk, he]
    exact hb ▸ hres
  | deliver i clock =>
    simp only [Cluster.step, Option.map_eq_some_iff] at hstep
    obtain ⟨rpc, hrpc, rfl⟩ := hstep
    have hdel := h.deliver hrpc clock
    simpa [ballotsAfter, Cluster.nodeEvent, hrpc, Cluster.setNode] using hdel
  | receive j clock =>
    simp only [Cluster.step, Option.bind_eq_some_iff] at hstep
    obtain ⟨r, hj, rpc, hrpc, hstep⟩ := hstep
    split_ifs at hstep with hwait
    have hs' := Option.some.inj hstep
    obtain ⟨rpc', hrpc', hok⟩ := h.reply r (List.mem_of_getElem? hj)
    obtain rfl : rpc = rpc' := Option.some.inj (hrpc.symm.trans hrpc')
    have hrec := h.receive hrpc hwait hok clock
      (fun e he => hkeeps (rpc.src, e) (by simp [Cluster.nodeEvent, hj, hrpc, he])) hs'
    have hb : recordIf b (Cluster.processEvent clock rpc r.2) rpc.src (s'.nodes rpc.src) =
        ballotsAfter b s s' (.receive j clock) := by
      unfold ballotsAfter recordIf
      cases he : Cluster.processEvent clock rpc r.2 <;> simp [Cluster.nodeEvent, hj, hrpc, he]
    exact hb ▸ hrec
  | restart p clock => exact absurd trivial hcrash

/-- No crash, and no vote is taken back. -/
def VotesStand (s : Cluster) (e : Event) : Prop := ¬e.IsCrash ∧ s.KeepsVotes e

instance (s : Cluster) (e : Event) : Decidable (VotesStand s e) :=
  inferInstanceAs (Decidable (_ ∧ _))

/-- The records go along with a run. -/
theorem run_voteRel {m : Membership} : ∀ {es : List Event} {b : Ballots} {s s' : Cluster},
    VoteRel m b s → Along (Cluster.step m) VotesStand s es →
      run (Cluster.step m) s es = some s' → ∃ b', VoteRel m b' s' ∧ BallotsGrow b b' := by
  intro es
  induction es with
  | nil =>
    intro b s s' h _ hrun
    obtain rfl : s = s' := Option.some.inj hrun
    exact ⟨b, h, fun _ _ _ hb => hb⟩
  | cons e es ih =>
    rintro b s s' h ⟨⟨hcrash, hkeeps⟩, hrest⟩ hrun
    obtain ⟨t, he, hes⟩ := run_cons_eq_some.mp hrun
    obtain ⟨b', h', hg⟩ := ih (step_voteRel h hcrash hkeeps he) (hrest t he) hes
    exact ⟨b', h', fun q T x hb => hg q T x (ballotsAfter_grows b s t e q T x hb)⟩

/-- Two nodes with the votes of majorities in one term are the same. -/
theorem Won.unique {m : Membership} {b : Ballots} {p q : String} {T : Nat} (hp : Won m b p T)
    (hq : Won m b q T) : p = q := by
  obtain ⟨v, ⟨l, hl⟩, l', hl'⟩ := (majority m.members).meet hp hq
  exact (Prod.mk.inj (Option.some.inj (hl.symm.trans hl'))).1

/-- At most one node becomes leader in a term, in every run in which no vote
is taken back. -/
theorem election_safety {m : Membership} {es fs : List Event} {t u : Cluster} {p q : String}
    (halong : Along (Cluster.step m) VotesStand (Cluster.start m) (es ++ fs))
    (ht : run (Cluster.step m) (Cluster.start m) es = some t)
    (hu : run (Cluster.step m) t fs = some u)
    (hp : (t.nodes p).state = .leader) (hq : (u.nodes q).state = .leader)
    (hterm : (t.nodes p).currentTerm = (u.nodes q).currentTerm) : p = q := by
  obtain ⟨hfirst, hsecond⟩ := halong.append ht
  obtain ⟨b, hb, -⟩ := run_voteRel (start_voteRel m) hfirst ht
  obtain ⟨b', hb', hg⟩ := run_voteRel hb hsecond hu
  have hwon := ((hb.votes p).leader hp).grows hg
  rw [hterm] at hwon
  exact hwon.unique ((hb'.votes q).leader hq)

/-- Three nodes. -/
def threeNodes : Membership where
  members := ["a", "b", "c"]
  nodup := by decide
  peers := fun p => ["a", "b", "c"].erase p
  perm := fun p hp => (List.perm_cons_erase hp).symm

/-- `a` asks for votes and `b` votes for it. -/
def oneElection : List Event :=
  [.becomeCandidate "a" someClock, .resume 0 someClock, .deliver 0 someClock,
    .receive 0 someClock, .resume 0 someClock]

theorem election_safety_one_election :
    ∃ t u, run (Cluster.step threeNodes) (Cluster.start threeNodes) oneElection = some t ∧
      run (Cluster.step threeNodes) t [.deliver 1 someClock, .becomePreCandidate "c"] = some u ∧
      (t.nodes "a").state = .leader ∧ (u.nodes "a").state = .leader ∧
      ∀ q, (u.nodes q).state = .leader → (u.nodes q).currentTerm = 1 → "a" = q := by
  refine ⟨_, _, rfl, rfl, by decide, by decide, fun q hq hterm => ?_⟩
  exact @election_safety threeNodes oneElection
    [.deliver 1 someClock, .becomePreCandidate "c"] _ _ _ _ (by decide) rfl rfl (by decide) hq
    hterm.symm

/-- A late refusal of the round of term 1 takes back the vote that `a` gave to
`b` in term 2, and `a` votes for `c`. -/
def lateRefusal : List Event :=
  [.becomeCandidate "a" someClock, .resume 0 someClock,
    .becomeCandidate "b" someClock, .becomeCandidate "b" someClock, .resume 0 someClock,
    -- `b`, in term 2, refuses `a` and gets its vote
    .deliver 0 someClock, .deliver 2 someClock, .receive 1 someClock, .resume 1 someClock,
    .receive 0 someClock,
    .becomeCandidate "c" someClock, .becomeCandidate "c" someClock, .resume 1 someClock,
    .deliver 4 someClock, .receive 2 someClock, .resume 2 someClock]

theorem two_leaders_after_lateRefusal :
    (∀ e ∈ lateRefusal, ¬e.IsCrash) ∧
      ∃ s, run (Cluster.step threeNodes) (Cluster.start threeNodes) lateRefusal = some s ∧
        (s.nodes "b").state = .leader ∧ (s.nodes "c").state = .leader ∧
        (s.nodes "b").currentTerm = (s.nodes "c").currentTerm := by
  refine ⟨by decide, _, rfl, ?_, ?_, ?_⟩ <;> decide

end OxideKv
