import OxideKv.Raft.ReadIndex
import OxideKv.Raft.Restart

/-!
# Reads across leaderships

`linearizable_get` waits until `confirm_read` lets the read go and then reads
the state machine.  What was committed by any leader before the read began has
to be in there.  The leader before the reader may have been one of an earlier
term, the reader itself, or one of a later term that the reader has not heard
of.

* An earlier one: the reader was elected with its entries, but its commit
  index covers them only once it has committed an entry of its own.
* A later one: the majority that answers the reader since the read began has
  not voted for a later leader before.
-/

namespace OxideKv

open Quorum ReplicatedLog RaftNode Run

/-- A leader of the term `T` has committed up to `i`; a node that has left the
term does not come back to lead it. -/
structure Leads (T i : Nat) (n : RaftNode) : Prop where
  term : T ≤ n.currentTerm
  candidate : n.currentTerm = T → n.state ≠ .candidate
  commit : n.currentTerm = T → n.state = .leader → i ≤ n.commitIndex

theorem Leads.step {T i : Nat} {n n' : RaftNode} {e : NodeEvent} (h : Leads T i n)
    (hstep : n.step e = some n') (hle : n.currentTerm ≤ n'.currentTerm) : Leads T i n' := by
  have hterm := h.term
  have hsucc : n'.currentTerm = T → n'.currentTerm ≠ u64Succ n.currentTerm := by
    intro hT heq
    have := u64Succ_of_le (heq ▸ hle)
    omega
  refine ⟨hterm.trans hle, fun hT hs => ?_, fun hT hs => ?_⟩
  · rcases step_candidate hstep hs with ⟨hc, -⟩ | ⟨heq, -⟩
    · exact h.candidate (by omega) hc
    · exact hsucc hT heq
  · by_cases hold : n.state = .leader
    · exact (h.commit (by omega) hold).trans (step_leader_commit hstep hold hs)
    · obtain ⟨-, -, -, ⟨hc, -⟩ | ⟨-, heq, -⟩⟩ := (step_elects hstep hold hs).leader
      · exact absurd hc (h.candidate (by omega))
      · exact absurd heq (hsucc hT)

section Before

variable {f : RaftNode → Nat} {m : Membership} {a a' : Past} {s s' : Cluster} {p q : String}

/-- What a leader of an earlier term has committed. -/
theorem inherits_commit (h : LogRel f m a s) (h' : LogRel f m a' s') (hg : Grows a a')
    (hlead : (s'.nodes p).state = .leader)
    (hterm : (s.nodes q).currentTerm < (s'.nodes p).currentTerm) :
    (s.nodes q).commitIndex ≤ (s'.nodes p).inherited := by
  obtain ⟨r, hr, rfl⟩ := (h'.node p).leads hlead
  have hlog : r.log = (s'.nodes r.leader).log :=
    (h'.inv.leader_log hr (h'.node _).term).symm.trans (h'.node _).log
  have hbase := committed_prefix_base h'.inv ((h.node q).committed.grows hg le_rfl) hterm hr
  have hlen : ((s.nodes q).log.take (s.nodes q).commitIndex).length = (s.nodes q).commitIndex := by
    rw [List.length_take]
    have := (h.node q).commit
    omega
  obtain ⟨hpre, hterms⟩ := h'.inv.base hr
  rw [← hlen]
  refine length_le_inherited ?_ fun e he => hterms e (hbase.subset he)
  rw [← hlog]
  exact hbase.trans hpre

/-- Two leaders of one term are the same node. -/
theorem same_leader (h : LogRel f m a s) (h' : LogRel f m a' s') (hg : Grows a a')
    (hq : (s.nodes q).state = .leader) (hp : (s'.nodes p).state = .leader)
    (hterm : (s.nodes q).currentTerm = (s'.nodes p).currentTerm) : q = p := by
  obtain ⟨r, hr, rfl⟩ := (h.node q).leads hq
  obtain ⟨r', hr', rfl⟩ := (h'.node p).leads hp
  obtain ⟨r₁, hr₁, hlead, -, -⟩ := hg.reign hr
  rw [hterm] at hr₁
  obtain rfl : r₁ = r' := Option.some.inj (hr₁.symm.trans hr')
  exact hlead.symm

/-- A majority that is still in a term up to `T` has elected no later
leader. -/
theorem no_later_leader (h : LogRel f m a s) (hg : Grows a a') {T : Nat} {P : String → Bool}
    (hcount : m.members.length < 2 * m.members.countP P)
    (hP : ∀ v, P v = true → a'.term v ≤ T) (hq : (s.nodes q).state = .leader) :
    (s.nodes q).currentTerm ≤ T := by
  by_contra hlt
  obtain ⟨r, hr, -⟩ := (h.node q).leads hq
  obtain ⟨Q, hQ, hvotes⟩ := h.inv.elected hr
  have hmajority : (majority m.members).IsQuorum { v | P v = true } :=
    majority_of_countP (by omega) fun v _ hv => hv
  obtain ⟨v, hv, hvQ⟩ := (majority m.members).meet hmajority hQ
  obtain ⟨l, hballot, -⟩ := hvotes v hvQ
  have hbound := (h.inv.ballot_le hballot).trans (hg.term v)
  have := hP v hv
  omega

end Before

/-! ## The answers since the read began -/

theorem handle_isAck {clock : Clock} {request : Request} {args : AppendEntriesArgs}
    {n : RaftNode} (hreq : request = .appendEntries args)
    (h : (request.handle clock n).1.isAck = true) : n.currentTerm ≤ args.term := by
  subst hreq
  rcases handleAppendEntries_cases clock args n with ⟨-, heq⟩ | ⟨haccepts, -⟩
  · simp only [Request.handle, Reply.isAck, heq] at h
    cases h
  · exact haccepts.1

/-- A node that has answered was in a term up to `T` when the read began. -/
theorem step_acksSince {f : RaftNode → Nat} {m : Membership} {a₀ a : Past} {s s' : Cluster}
    {e : Event} {mark T : Nat} {p : String} (hg : Grows a₀ a) (hl : LogRel f m a s)
    (h : ∀ v, s.acksSince mark p T v = true → a₀.term v ≤ T) (hstep : s.step m e = some s') :
    ∀ v, s'.acksSince mark p T v = true → a₀.term v ≤ T := by
  intro v hack
  obtain ⟨i, r, rpc', args, hmem, hmark, hok, hrpc', hsrc, hdst, hreq, hterm⟩ :=
    Cluster.acksSince_eq_true.mp hack
  -- an answer that was there before
  have hold : (i, Reply.append r) ∈ s.replies → a₀.term v ≤ T := by
    intro hmem
    obtain ⟨rpc, hrpc, -⟩ := hl.confirm _ hmem
    obtain ⟨rpc₁, hrpc₁, hsrc₁, hdst₁, hreq₁⟩ := (Cluster.step_keeps hstep).rpc hrpc
    obtain rfl : rpc' = rpc₁ := Option.some.inj (hrpc'.symm.trans hrpc₁)
    exact h v (Cluster.acksSince_eq_true.mpr ⟨i, r, rpc, args, hmem, hmark, hok, hrpc,
      hsrc₁.symm.trans hsrc, hdst₁.symm.trans hdst, hreq₁.symm.trans hreq, hterm⟩)
  rcases Cluster.step_replies hstep with hsame | ⟨j, clock, rpc, rfl, hrpc, hrpcs, hnew⟩
  · exact hold (hsame ▸ hmem)
  · rw [hnew] at hmem
    rcases List.mem_append.mp hmem with hmem | hmem
    · exact hold hmem
    · obtain ⟨rfl, hr⟩ := Prod.mk.inj (List.mem_singleton.mp hmem)
      rw [hrpcs] at hrpc'
      obtain rfl : rpc = rpc' := Option.some.inj (hrpc.symm.trans hrpc')
      have hle : (s.nodes v).currentTerm ≤ T := by
        rw [← hdst, ← hterm]
        refine @handle_isAck clock _ args _ hreq ?_
        rw [← hr]
        exact hok
      have hmono := hg.term v
      rw [(hl.node v).term] at hmono
      exact hmono.trans hle

/-- The reader is not elected again. -/
def NotElected (p : String) (s : Cluster) (e : Event) : Prop :=
  ∀ c ∈ s.nodeEvent e, c.1 = p → ¬(s.nodes p).IsElection c.2

instance (p : String) (s : Cluster) (e : Event) : Decidable (NotElected p s e) :=
  inferInstanceAs (Decidable (∀ c ∈ s.nodeEvent e, c.1 = p → _))

/-- While the reader is not elected, it leads in the term of the read or not
at all. -/
theorem step_leads_same {m : Membership} {s s' : Cluster} {e : Event} {p : String} {T : Nat}
    (h : (s.nodes p).state = .leader → (s.nodes p).currentTerm = T)
    (hstays : NotElected p s e) (hstep : s.step m e = some s') :
    (s'.nodes p).state = .leader → (s'.nodes p).currentTerm = T := by
  intro hlead
  rcases Cluster.step_node hstep p with hsame | ⟨ne, hne, hnstep⟩ | ⟨clock, -, hstart⟩
  · rw [hsame] at hlead ⊢
    exact h hlead
  · by_cases hold : (s.nodes p).state = .leader
    · rw [(step_leader hnstep hold hlead).1]
      exact h hold
    · exact absurd (step_elects hnstep hold hlead).isElection (hstays _ hne rfl)
  · rw [Cluster.startup_follower hstart] at hlead
    cases hlead

/-! ## Runs -/

section Runs

variable {m : Membership} {s t : Cluster} {es : List Event} {p : String}

/-- A leader that leads again in its term has committed no less. -/
theorem run_leads {a : Past} {T i : Nat} (hv : VoteRel m a.ballot s) (hl : LogRel inherited m a s)
    (hleads : Leads T i (s.nodes p)) (halong : Along (Cluster.step m) (LogsSurvive inherited) s es)
    (hrun : run (Cluster.step m) s es = some t) : Leads T i (t.nodes p) := by
  have hinv : (∃ a : Past, VoteRel m a.ballot t ∧ LogRel inherited m a t) ∧
      Leads T i (t.nodes p) := by
    refine run_invariant (I := fun s => (∃ a : Past, VoteRel m a.ballot s ∧
      LogRel inherited m a s) ∧ Leads T i (s.nodes p)) ?_ ⟨⟨a, hv, hl⟩, hleads⟩ halong hrun
    rintro s s' e ⟨⟨a, hv, hl⟩, hleads⟩ hsurvive hstep
    obtain ⟨a', hg, hv', hl'⟩ := step_survives inherited_isSlack hv hl hsurvive hstep
    have hmono := hg.term p
    rw [(hl.node p).term, (hl'.node p).term] at hmono
    refine ⟨⟨a', hv', hl'⟩, ?_⟩
    rcases Cluster.step_node hstep p with hsame | ⟨ne, -, hnstep⟩ | ⟨clock, -, hstart⟩
    · rw [hsame]
      exact hleads
    · exact hleads.step hnstep hmono
    · have hfollower := Cluster.startup_follower hstart
      refine ⟨hleads.term.trans hmono, fun _ hs => ?_, fun _ hs => ?_⟩
      · rw [hfollower] at hs
        cases hs
      · rw [hfollower] at hs
        cases hs
  exact hinv.2

/-- The nodes that have answered since were in a term up to `T`. -/
theorem run_acksSince {a₀ : Past} {T : Nat} (hv : VoteRel m a₀.ballot s)
    (hl : LogRel inherited m a₀ s)
    (halong : Along (Cluster.step m) (LogsSurvive inherited) s es)
    (hrun : run (Cluster.step m) s es = some t) :
    ∀ v, t.acksSince s.rpcs.length p T v = true → a₀.term v ≤ T := by
  have hstart : ∀ v, s.acksSince s.rpcs.length p T v = true → a₀.term v ≤ T := by
    intro v hack
    obtain ⟨i, -, rpc, -, -, hmark, -, hrpc, -⟩ := Cluster.acksSince_eq_true.mp hack
    exact absurd (List.getElem?_eq_some_iff.mp hrpc).1 (Nat.not_lt.mpr hmark)
  have hinv : (∃ a : Past, Grows a₀ a ∧ VoteRel m a.ballot t ∧ LogRel inherited m a t) ∧
      ∀ v, t.acksSince s.rpcs.length p T v = true → a₀.term v ≤ T := by
    refine run_invariant (I := fun w => (∃ a : Past, Grows a₀ a ∧ VoteRel m a.ballot w ∧
      LogRel inherited m a w) ∧ ∀ v, w.acksSince s.rpcs.length p T v = true → a₀.term v ≤ T)
      ?_ ⟨⟨a₀, Grows.refl a₀, hv, hl⟩, hstart⟩ halong hrun
    rintro w w' e ⟨⟨a, hg, hv, hl⟩, hacks⟩ hsurvive hstep
    obtain ⟨a', hg', hrel⟩ := step_survives inherited_isSlack hv hl hsurvive hstep
    exact ⟨⟨a', hg.trans hg', hrel⟩, step_acksSince hg hl hacks hstep⟩
  exact hinv.2

end Runs

/-- A read that is confirmed has applied what any leader had committed before
it began. -/
theorem read_index_complete {m : Membership} {es fs gs : List Event} {u s t : Recorded}
    {p q : String} {clock clock' : Clock} {maxElectionTimeout i : Nat} {ri : ReadIndex}
    (halong : Along (Recorded.step m) (StoresSurvive inherited) (Recorded.start m)
      (es ++ (fs ++ gs)))
    (hu : run (Recorded.step m) (Recorded.start m) es = some u)
    (hs : run (Recorded.step m) u fs = some s) (ht : run (Recorded.step m) s gs = some t)
    (hq : q ∈ m.members) (hleads : (u.cluster.nodes q).state = .leader)
    (hi : i ≤ (u.cluster.nodes q).commitIndex)
    (hp : p ∈ m.members) (hbegin : (s.cluster.nodes p).beginRead clock = some ri)
    (hown : (s.cluster.nodes p).inherited ≤ (s.cluster.nodes p).commitIndex)
    (hstays : Along (Cluster.step m) (NotElected p) s.cluster gs)
    (hconfirm : (t.cluster.nodes p).confirmRead clock' maxElectionTimeout ri = true)
    (hquorum : t.cluster.QuorumSince m s.cluster.rpcs.length p (t.cluster.nodes p).currentTerm) :
    i ≤ (t.cluster.nodes p).lastApplied ∧
      (u.cluster.nodes q).log.take i <+: t.committed ∧
      ∀ key, (t.cluster.nodes p).stateMachine.contents key =
        logEffect (t.committed.take (t.cluster.nodes p).lastApplied) key := by
  obtain ⟨hfirst, hrest⟩ := halong.append hu
  obtain ⟨hsecond, hthird⟩ := hrest.append hs
  obtain ⟨a, fed, -, h, -⟩ :=
    run_recordRel inherited_isSlack (start_recordRel inherited m) hfirst hu
  obtain ⟨a₁, fed₁, hg₁, h₁, hpre₁⟩ := run_recordRel inherited_isSlack h hsecond hs
  obtain ⟨a₂, fed₂, -, h₂, hpre₂⟩ := run_recordRel inherited_isSlack h₁ hthird ht
  have hl := h.cluster.logs
  have hl₁ := h₁.cluster.logs
  have hlogs₂ : Along (Cluster.step m) (LogsSurvive inherited) u.cluster fs :=
    Recorded.along_cluster (hsecond.mono fun _ _ hsurvive => hsurvive.logs)
  have hlogs₃ : Along (Cluster.step m) (LogsSurvive inherited) s.cluster gs :=
    Recorded.along_cluster (hthird.mono fun _ _ hsurvive => hsurvive.logs)
  obtain ⟨hlead, hindex, -⟩ := beginRead_eq_some hbegin
  obtain ⟨hlead', hserved, -⟩ := confirmRead_eq_true hconfirm
  have hterm : (t.cluster.nodes p).currentTerm = (s.cluster.nodes p).currentTerm :=
    run_invariant (I := fun w => (w.nodes p).state = .leader →
        (w.nodes p).currentTerm = (s.cluster.nodes p).currentTerm)
      (fun h hstays hstep => step_leads_same h hstays hstep) (fun _ => rfl) hstays
      (Recorded.run_cluster ht) hlead'
  have hcommit : i ≤ (s.cluster.nodes p).commitIndex := by
    rcases Nat.lt_trichotomy (u.cluster.nodes q).currentTerm (s.cluster.nodes p).currentTerm with
      hlt | heq | hgt
    · exact (hi.trans (inherits_commit hl hl₁ hg₁ hlead hlt)).trans hown
    · obtain rfl := same_leader hl hl₁ hg₁ hleads hlead heq
      have hstart : Leads (u.cluster.nodes q).currentTerm i (u.cluster.nodes q) :=
        ⟨le_rfl, fun _ => (by rw [hleads]; simp), fun _ _ => hi⟩
      exact (run_leads h.cluster.votes hl hstart hlogs₂ (Recorded.run_cluster hs)).commit heq.symm
        hlead
    · -- the majority that has answered did not elect the later leader
      rw [hterm] at hquorum
      have hacks := @run_acksSince m s.cluster t.cluster gs p a₁ (s.cluster.nodes p).currentTerm
        h₁.cluster.votes hl₁ hlogs₃ (Recorded.run_cluster ht)
      refine absurd (no_later_leader hl hg₁ hquorum (fun v hv => ?_) hleads) (Nat.not_le.mpr hgt)
      rcases Bool.or_eq_true_iff.mp hv with hv | hv
      · rw [eq_of_beq hv]
        exact (hl₁.node p).term.le
      · exact hacks v hv
  refine ⟨hcommit.trans (hindex ▸ hserved), ?_, (h₂.contents hp).2⟩
  exact ((List.take_prefix_take_left hi).trans (h.commit q hq)).trans (hpre₁.trans hpre₂)

/-- A later time. -/
def laterClock : Clock := { now := 1, unixMs := fun _ => 0 }

/-- `b` is elected by `c`. -/
def nextElection : List Event :=
  [.becomeCandidate "b" someClock, .resume 1 someClock, .deliver 5 someClock,
    .receive 2 someClock, .resume 1 someClock]

/-- `b` commits an entry of its own. -/
def ownEntry : List Event :=
  [.propose "b" (.set "y" "2"), .leaderCheck "b", .resume 1 someClock, .resume 1 someClock,
    .deliver 6 someClock, .receive 3 someClock]

/-- The heartbeat round of the read of `b`, up to the answer of `a`. -/
def nextHeartbeat (call rpc reply : Nat) : List Event :=
  [.leaderCheck "b", .resume call laterClock, .resume call laterClock, .deliver rpc laterClock,
    .receive reply laterClock]

theorem read_index_complete_next_leader :
    ∃ u s t, run (Recorded.step threeNodes) (Recorded.start threeNodes) oneEntry = some u ∧
      run (Recorded.step threeNodes) u (nextElection ++ ownEntry) = some s ∧
      run (Recorded.step threeNodes) s (nextHeartbeat 2 7 4) = some t ∧
      (u.cluster.nodes "a").state = .leader ∧ (u.cluster.nodes "a").commitIndex = 1 ∧
      (s.cluster.nodes "b").beginRead laterClock = some { index := 2, issuedAt := 1 } ∧
      (t.cluster.nodes "b").confirmRead laterClock 300 { index := 2, issuedAt := 1 } = true ∧
      1 ≤ (t.cluster.nodes "b").lastApplied ∧
      (u.cluster.nodes "a").log.take 1 <+: t.committed ∧
      ∀ key, (t.cluster.nodes "b").stateMachine.contents key =
        logEffect (t.committed.take (t.cluster.nodes "b").lastApplied) key := by
  obtain ⟨u, hu, hleads, hcommit⟩ : ∃ u, run (Recorded.step threeNodes)
      (Recorded.start threeNodes) oneEntry = some u ∧ (u.cluster.nodes "a").state = .leader ∧
      (u.cluster.nodes "a").commitIndex = 1 := exists_run_of_any (by decide +kernel)
  obtain ⟨s, hs, hbegin, hown, hstays, hlen⟩ : ∃ s, run (Recorded.step threeNodes)
      (Recorded.start threeNodes) (oneEntry ++ (nextElection ++ ownEntry)) = some s ∧
      (s.cluster.nodes "b").beginRead laterClock = some { index := 2, issuedAt := 1 } ∧
      (s.cluster.nodes "b").inherited ≤ (s.cluster.nodes "b").commitIndex ∧
      Along (Cluster.step threeNodes) (NotElected "b") s.cluster (nextHeartbeat 2 7 4) ∧
      s.cluster.rpcs.length = 7 := exists_run_of_any (by decide +kernel)
  obtain ⟨t, ht, hconfirm, hquorum⟩ : ∃ t, run (Recorded.step threeNodes) (Recorded.start threeNodes)
      (oneEntry ++ (nextElection ++ ownEntry) ++ nextHeartbeat 2 7 4) = some t ∧
      (t.cluster.nodes "b").confirmRead laterClock 300 { index := 2, issuedAt := 1 } = true ∧
      t.cluster.QuorumSince threeNodes 7 "b" (t.cluster.nodes "b").currentTerm :=
    exists_run_of_any (by decide +kernel)
  obtain ⟨s', hs', ht⟩ := run_append_eq_some.mp ht
  obtain rfl : s = s' := Option.some.inj (hs.symm.trans hs')
  obtain ⟨u', hu', hs⟩ := run_append_eq_some.mp hs
  obtain rfl : u = u' := Option.some.inj (hu.symm.trans hu')
  exact ⟨u, s, t, hu, hs, ht, hleads, hcommit, hbegin, hconfirm,
    read_index_complete (by decide +kernel) hu hs ht (by decide) hleads hcommit.ge (by decide)
      hbegin hown hstays hconfirm (hlen ▸ hquorum)⟩

theorem read_misses_committed_write :
    ∃ u s t, run (Recorded.step threeNodes) (Recorded.start threeNodes) oneEntry = some u ∧
      run (Recorded.step threeNodes) u nextElection = some s ∧
      run (Recorded.step threeNodes) s (nextHeartbeat 1 6 3) = some t ∧
      (u.cluster.nodes "a").state = .leader ∧ 1 ≤ (u.cluster.nodes "a").commitIndex ∧
      (s.cluster.nodes "b").beginRead laterClock = some { index := 0, issuedAt := 1 } ∧
      (t.cluster.nodes "b").confirmRead laterClock 300 { index := 0, issuedAt := 1 } = true ∧
      (t.cluster.nodes "b").lastApplied = 0 ∧
      (t.cluster.nodes "b").stateMachine.contents "x" = none ∧
      logEffect u.committed "x" = some "1" := by
  obtain ⟨u, hu, hleads, hcommit, heffect⟩ : ∃ u, run (Recorded.step threeNodes)
      (Recorded.start threeNodes) oneEntry = some u ∧ (u.cluster.nodes "a").state = .leader ∧
      1 ≤ (u.cluster.nodes "a").commitIndex ∧ logEffect u.committed "x" = some "1" :=
    exists_run_of_any (by decide +kernel)
  obtain ⟨s, hs, hbegin⟩ : ∃ s, run (Recorded.step threeNodes) (Recorded.start threeNodes)
      (oneEntry ++ nextElection) = some s ∧
      (s.cluster.nodes "b").beginRead laterClock = some { index := 0, issuedAt := 1 } :=
    exists_run_of_any (by decide +kernel)
  obtain ⟨t, ht, hconfirm, hlast, hnone⟩ : ∃ t, run (Recorded.step threeNodes)
      (Recorded.start threeNodes) (oneEntry ++ nextElection ++ nextHeartbeat 1 6 3) = some t ∧
      (t.cluster.nodes "b").confirmRead laterClock 300 { index := 0, issuedAt := 1 } = true ∧
      (t.cluster.nodes "b").lastApplied = 0 ∧
      (t.cluster.nodes "b").stateMachine.contents "x" = none :=
    exists_run_of_any (by decide +kernel)
  obtain ⟨s', hs', ht⟩ := run_append_eq_some.mp ht
  obtain rfl : s = s' := Option.some.inj (hs.symm.trans hs')
  obtain ⟨u', hu', hs⟩ := run_append_eq_some.mp hs
  obtain rfl : u = u' := Option.some.inj (hu.symm.trans hu')
  exact ⟨u, s, t, hu, hs, ht, hleads, hcommit, hbegin, hconfirm, hlast, hnone, heffect⟩

end OxideKv
