import OxideKv.Raft.Replication

/-!
# A cluster and its replicated log

`LogRel` relates a cluster to the replicated log behind it.  Besides the nodes
it speaks of what is on the way: a round of `sync_logs` that waits for the
lock, an `AppendEntries` and the confirmation of one.

`step_logRel` keeps the relation as long as `LogsStand` holds.
-/

namespace OxideKv

open Quorum ReplicatedLog RaftNode Run

/-- The indices that a node has on record for its peers stay within the slack
when they are not from its own term: those that a new leader finds, and those
that a leader gets from a reply to a request of an earlier term.  Or the peer
shows that much of the log. -/
def RaftNode.FitsSlack (f : RaftNode → Nat) (shows : String → Nat → Prop) (n : RaftNode) :
    NodeEvent → Prop
  | .voteQuorum _ term => n.state = .candidate → n.currentTerm = term →
      ∀ q ∈ n.peers, n.matchIndexFor q ≤ f n ∨ shows q (n.matchIndexFor q)
  | .appendReply _ peer args reply => reply.success = true → n.state = .leader →
      args.term ≠ n.currentTerm → args.prevLogIndex + args.entries.length ≤ f n ∨
        shows peer (args.prevLogIndex + args.entries.length)
  | _ => True

/-- The node `q` is in the term of `p` and has the first `k` entries of its log. -/
def Cluster.Shows (s : Cluster) (p q : String) (k : Nat) : Prop :=
  (s.nodes q).currentTerm = (s.nodes p).currentTerm ∧ k ≤ (s.nodes p).log.length ∧
    (s.nodes p).log.take k <+: (s.nodes q).log

section Relation

variable (f : RaftNode → Nat) (m : Membership)

/-- What `sync_logs` has read when it began.  The entries up to the commit index
were committed then, and the node still has them. -/
structure SyncOk (a : Past) (p : String) (round : SyncRound) : Prop where
  term : round.currentTerm ≤ a.term p
  le_logLen : round.commitIndex ≤ round.logLen
  committed : ∃ l, l.length = round.commitIndex ∧ l <+: a.log p ∧
    Committed (majority m.members) LogEntry.term a round.currentTerm l

/-- The peer has confirmed the entries of the request. -/
def ConfirmOk (a : Past) (rpc : Rpc) (reply : Reply) : Prop :=
  ∀ args r, rpc.request = .appendEntries args → reply = .append r → r.success = true →
    args.prevLogIndex + args.entries.length ≤ a.ack rpc.dst args.term

structure LogRel (a : Past) (s : Cluster) : Prop where
  inv : Inv (majority m.members) LogEntry.term a
  numbered : AllNumbered a
  node : ∀ p, NodeLog f m a p (s.nodes p)
  sync : ∀ {p round rest}, (p, Call.syncPeers round rest) ∈ s.calls →
    SyncOk m a p round
  append : ∀ rpc ∈ s.rpcs, ∀ args, rpc.request = .appendEntries args →
    ∃ r, AppendOk m a args r
  confirm : ∀ x ∈ s.replies, ∃ rpc, s.rpcs[x.1]? = some rpc ∧ ConfirmOk a rpc x.2

end Relation

section Steps

variable {f : RaftNode → Nat} {m : Membership} {a a' : Past} {s : Cluster}

theorem LogRel.keepsUp (h : LogRel f m a s) {p q : String} {k : Nat} (hshows : s.Shows p q k) :
    KeepsUp a (s.nodes p).currentTerm (s.nodes p).log q k := by
  unfold KeepsUp
  rw [(h.node q).term, (h.node q).log]
  exact hshows

/-- A new leader is to send what comes behind its log. -/
theorem nextInLog_of_elected {n : RaftNode}
    (hnext : n.nextIndex = fun q => if q ∈ n.peers then some (n.log.length + 1) else none)
    (q : String) : n.NextInLog q := by
  unfold NextInLog
  rw [hnext]
  dsimp only
  split_ifs
  · dsimp only [Option.getD_some]
    omega
  · dsimp only [Option.getD_none]
    omega

/-- A candidate is elected. -/
theorem matched_voteQuorum (hf : IsSlack f) (hv : VoteRel m a.ballot s) (h : LogRel f m a s)
    {p : String} (hp : p ∈ m.members) {term : Nat} (hcall : CallOk m s.polls p (.voteQuorum term))
    (clock : Clock) (hfits : (s.nodes p).FitsSlack f (s.Shows p) (.voteQuorum clock term)) :
    ∃ a', Matched f m a p ((s.nodes p).voteQuorum clock term) a' := by
  unfold voteQuorum
  split_ifs with hs
  · obtain ⟨hcand, rfl⟩ := hs
    have hnode := h.node p
    have heq := becomeLeader_eq clock (s.nodes p) (by rw [hcand]; simp)
    have hlog : Numbered (s.nodes p).log := by
      rw [← hnode.log]
      exact h.numbered.of_wellFormed (h.inv.log_wf p)
    have hslack : f (s.nodes p) ≤ f (becomeLeader clock (s.nodes p)) := by
      rw [heq]
      exact hf.mono rfl List.prefix_rfl
    have hmatch : ∀ q ∈ m.peers p,
        (becomeLeader clock (s.nodes p)).matchIndexFor q ≤ f (becomeLeader clock (s.nodes p)) ∨
          KeepsUp a (s.nodes p).currentTerm (s.nodes p).log q
            ((becomeLeader clock (s.nodes p)).matchIndexFor q) := by
      intro q hq
      have hfits := hfits hcand rfl q ((hv.static p).peers ▸ hq)
      rw [heq] at hslack ⊢
      exact hfits.imp hslack.trans' h.keepsUp
    rw [heq] at hmatch ⊢
    refine matched_elect h.inv h.numbered hnode le_rfl rfl rfl (hnode.candidate hcand) ?_ hmatch
      ?_ rfl
    · refine (majority m.members).mono (fun q hq => ?_) (hv.quorum hp hcall hcand)
      obtain ⟨l, hb, hcov⟩ := hq
      exact ⟨l, observe_grows _ _ _ _ _ _ hb, upToDate_of_infoCovers hlog
        (h.numbered.of_wellFormed (h.inv.ballot_wf hb)) hcov⟩
    · exact nextInLog_of_elected rfl
  · exact ⟨a, matched_stay h.numbered (hv.votes p) (.refl _) (h.node p)⟩

/-- The only member is elected. -/
theorem matched_preVoteAlone (hv : VoteRel m a.ballot s) (h : LogRel f m a s)
    {p : String} (hp : p ∈ m.members) (halone : m.peers p = []) (clock : Clock)
    (hkeeps : (s.nodes p).KeepsTermAndVote (.preVoteAlone clock)) :
    ∃ a', Matched f m a p ((s.nodes p).preVoteAlone clock) a' := by
  by_cases hs : (s.nodes p).state = .preCandidate
  · have hnode := h.node p
    have hterm : (s.nodes p).currentTerm + 1 ≠ 2 ^ 64 := hkeeps hs
    have hsucc : u64Succ (s.nodes p).currentTerm = (s.nodes p).currentTerm + 1 := if_neg hterm
    obtain ⟨storage, -, -, -, hpromote⟩ := promoteToCandidate_eq clock (s.nodes p)
    have heq : (s.nodes p).preVoteAlone clock =
        becomeLeader clock (promoteToCandidate clock (s.nodes p)) := by
      unfold preVoteAlone becomeLeaderChecked
      rw [if_pos hs, if_neg (by rw [hpromote]; simp)]
    rw [heq, hpromote, becomeLeader_eq clock _ (by simp)]
    refine matched_elect h.inv h.numbered hnode (by dsimp only; omega) rfl rfl
      (fun r hr hlead => ?_) ?_ (fun q hq => ?_) (nextInLog_of_elected rfl) rfl
    · have hle : u64Succ (s.nodes p).currentTerm ≤ a.term r.leader := h.inv.leader_term hr
      rw [hlead, hnode.term] at hle
      omega
    · refine majority_alone hp halone ⟨(s.nodes p).log, ?_, Or.inr ⟨rfl, le_rfl⟩⟩
      rw [observe_self, (hv.votes p).bound _ (by dsimp only; omega), (hv.static p).nodeId]
      rfl
    · rw [halone] at hq
      cases hq
  · unfold preVoteAlone
    rw [if_neg hs]
    exact ⟨a, matched_stay h.numbered (hv.votes p) (.refl _) (h.node p)⟩

/-! ## The parts of a step -/

theorem SyncOk.steps {p q : String} {round : SyncRound} (h : SyncOk m a p round)
    (hinv : Inv (majority m.members) LogEntry.term a)
    (hsteps : Steps (majority m.members) LogEntry.term q a a') : SyncOk m a' p round := by
  obtain ⟨-, hg, -⟩ := steps_inv hinv hsteps
  obtain ⟨l, hlen, hl, hcommitted⟩ := h.committed
  exact ⟨h.term.trans (hg.term p), h.le_logLen, l, hlen,
    steps_keeps hinv hsteps hcommitted h.term hl, hcommitted.grows hg le_rfl⟩

/-- The node `n'` in the place of the node `p`. -/
theorem LogRel.setNode (h : LogRel f m a s) {p : String} {n' : RaftNode}
    (hm : Matched f m a p n' a') : LogRel f m a' (s.setNode p n') := by
  obtain ⟨hinv, hg, hlocal⟩ := steps_inv h.inv hm.steps
  refine ⟨hinv, hm.numbered, fun q => ?_, fun hc => (h.sync hc).steps h.inv hm.steps,
    fun rpc hr args hreq => ?_, fun x hx => ?_⟩
  · show NodeLog f m a' q (Function.update s.nodes p n' q)
    by_cases hq : q = p
    · subst hq
      rw [Function.update_self]
      exact hm.node
    · rw [Function.update_of_ne hq]
      exact (h.node q).other hq hg hlocal
  · obtain ⟨r, hr⟩ := h.append rpc hr args hreq
    exact hr.grows hg
  · obtain ⟨rpc, hrpc, hok⟩ := h.confirm x hx
    exact ⟨rpc, hrpc, fun args r hreq hr hs => (hok args r hreq hr hs).trans (hg.ack _ _)⟩

theorem LogRel.addCalls (h : LogRel f m a s) {p : String} {calls : List Call}
    (hcalls : ∀ round rest, .syncPeers round rest ∈ calls → SyncOk m a p round) :
    LogRel f m a (s.addCalls p calls) := by
  refine ⟨h.inv, h.numbered, h.node, fun {q round rest} hc => ?_, h.append, h.confirm⟩
  rcases List.mem_append.mp hc with hc | hc
  · exact h.sync hc
  · obtain ⟨c, hc, heq⟩ := List.mem_map.mp hc
    obtain ⟨rfl, rfl⟩ := Prod.mk.inj heq
    exact hcalls round rest hc

theorem LogRel.eraseCall (h : LogRel f m a s) (k : Nat) :
    LogRel f m a { s with calls := s.calls.eraseIdx k } :=
  ⟨h.inv, h.numbered, h.node, fun hc => h.sync (List.mem_of_mem_eraseIdx hc), h.append, h.confirm⟩

theorem LogRel.addReply (h : LogRel f m a s) {i : Nat} {rpc : Rpc} {reply : Reply}
    (hrpc : s.rpcs[i]? = some rpc) (hok : ConfirmOk a rpc reply) :
    LogRel f m a { s with replies := s.replies ++ [(i, reply)] } := by
  refine ⟨h.inv, h.numbered, h.node, h.sync, h.append, fun x hx => ?_⟩
  rcases List.mem_append.mp hx with hx | hx
  · exact h.confirm x hx
  · obtain rfl := List.mem_singleton.mp hx
    exact ⟨rpc, hrpc, hok⟩

theorem LogRel.addRpcs (h : LogRel f m a s) {rpcs : List Rpc}
    (hok : ∀ rpc ∈ rpcs, ∀ args, rpc.request = .appendEntries args →
      ∃ r, AppendOk m a args r) : LogRel f m a { s with rpcs := s.rpcs ++ rpcs } := by
  refine ⟨h.inv, h.numbered, h.node, h.sync, fun rpc hr => ?_, fun x hx => ?_⟩
  · rcases List.mem_append.mp hr with hr | hr
    · exact h.append rpc hr
    · exact hok rpc hr
  · obtain ⟨rpc, hrpc, hconfirm⟩ := h.confirm x hx
    refine ⟨rpc, ?_, hconfirm⟩
    show (s.rpcs ++ rpcs)[x.1]? = some rpc
    rw [List.getElem?_append_left (List.getElem?_eq_some_iff.mp hrpc).1]
    exact hrpc

/-- The counters have nothing to do with the logs. -/
theorem LogRel.tallies (h : LogRel f m a s) (polls probes : List Tally) :
    LogRel f m a { s with polls := polls, probes := probes } :=
  ⟨h.inv, h.numbered, h.node, h.sync, h.append, h.confirm⟩

theorem LogRel.openPoll (h : LogRel f m a s) (p : String) (round : VoteRound) :
    LogRel f m a (s.openPoll p round) := by
  refine (h.addRpcs fun rpc hr args hreq => ?_).tallies _ _
  obtain ⟨q, -, rfl⟩ := List.mem_map.mp hr
  cases hreq

theorem LogRel.openProbe (h : LogRel f m a s) (p : String) (round : VoteRound) :
    LogRel f m a (s.openProbe p round) := by
  refine (h.addRpcs fun rpc hr args hreq => ?_).tallies _ _
  obtain ⟨q, -, rfl⟩ := List.mem_map.mp hr
  cases hreq

/-- What a call on `p` has done while it held the lock. -/
theorem LogRel.finish {p : String} {o : Outcome} (h : LogRel f m a (s.setNode p o.node))
    (hnext : ∀ round rest, .syncPeers round rest ∈ o.next → SyncOk m a p round)
    (hsent : ∀ x ∈ o.sent, ∃ r, AppendOk m a x.2 r) : LogRel f m a (s.finish p o) := by
  obtain ⟨node, next, poll, probe, sent⟩ := o
  have hlast : ∀ {t : Cluster}, LogRel f m a t →
      LogRel f m a (Cluster.addCalls p next (Cluster.send p sent t)) := by
    intro t ht
    have hsend : LogRel f m a (Cluster.send p sent t) := by
      refine ht.addRpcs fun rpc hr args hreq => ?_
      obtain ⟨x, hx, rfl⟩ := List.mem_map.mp hr
      cases hreq
      exact hsent x hx
    exact hsend.addCalls hnext
  cases poll with
  | none =>
    cases probe with
    | none => exact hlast h
    | some round => exact hlast (h.openProbe p round)
  | some round =>
    cases probe with
    | none => exact hlast (h.openPoll p round)
    | some round' => exact hlast ((h.openPoll p round).openProbe p round')

/-- A round of `sync_logs` begins. -/
theorem syncRound_ok (h : LogRel f m a s) (p : String) : SyncOk m a p (s.nodes p).syncRound := by
  have hnode := h.node p
  refine ⟨hnode.term.ge, hnode.commit, (s.nodes p).log.take (s.nodes p).commitIndex, ?_, ?_,
    hnode.committed⟩
  · rw [List.length_take, Nat.min_eq_left hnode.commit]
    rfl
  · rw [hnode.log]
    exact List.take_prefix _ _

/-- What is sent is a part of the log of the leader of the term, when the log of
the sender is. -/
theorem syncPeer_ok {p peer : String} {n : RaftNode} {round : SyncRound}
    (hsync : SyncOk m a p round) {r : Reign String LogEntry}
    (hr : a.reign round.currentTerm = some r) (hlog : a.log p = n.log) (hpart : n.log <+: r.log)
    (hnext : n.NextInLog peer) {args : AppendEntriesArgs}
    (hargs : n.syncPeer round peer = some args) :
    AppendOk m a args r := by
  obtain ⟨hpos, hle⟩ := hnext
  obtain ⟨l, hlen, hl, hcommitted⟩ := hsync.committed
  rw [hlog] at hl
  have hcommit := hsync.le_logLen
  have hlLen := hl.length_le
  have hrLen := hpart.length_le
  obtain ⟨hterm, -, hleaderCommit, hprev, hprevTerm, hentries⟩ := syncPeer_cases hargs
  have hpred : args.prevLogIndex + 1 = (n.nextIndex peer).getD 1 := by
    obtain ⟨k, hk⟩ := Nat.exists_eq_add_of_le' hpos
    rw [hprev, hk, usizePred_succ]
  have hend : args.prevLogIndex + args.entries.length ≤ n.log.length ∧
      round.commitIndex ≤ args.prevLogIndex + args.entries.length ∧
      args.entries = (n.log.drop args.prevLogIndex).take args.entries.length := by
    rcases hentries with ⟨-, -, heq⟩ | ⟨hlt, heq⟩
    · have hlength : args.entries.length = n.log.length - args.prevLogIndex := by
        rw [heq, List.length_drop]
      refine ⟨by omega, by omega, ?_⟩
      rw [List.take_of_length_le (by rw [List.length_drop]; omega)]
      exact heq
    · rw [heq, List.length_nil, List.take_zero]
      exact ⟨by omega, by omega, rfl⟩
  obtain ⟨hendLe, hcommitLe, hdrop⟩ := hend
  refine ⟨hterm ▸ hr, hendLe.trans hrLen, ?_, ?_, ?_, ?_⟩
  · rw [List.take_drop] at hdrop ⊢
    rw [take_of_isPrefix hpart hendLe]
    exact hdrop
  · rcases Nat.eq_zero_or_pos args.prevLogIndex with h0 | hprevPos
    · exact Or.inl h0
    · have heq := hprevTerm.resolve_left (Nat.ne_of_gt hprevPos)
      have hlt : args.prevLogIndex - 1 < n.log.length := by omega
      have he := List.getElem?_eq_getElem hlt
      rw [he] at heq
      exact Or.inr ⟨_, getElem?_of_isPrefix hpart he, heq.symm⟩
  · rw [hleaderCommit]
    exact hcommitLe
  · rw [hterm, hleaderCommit, ← hlen, ← List.prefix_iff_eq_take.mp (hl.trans hpart)]
    exact hcommitted

/-! ## The steps -/

theorem matched_of_same (hf : IsSlack f) (h : LogRel f m a s) {p : String} {n' : RaftNode}
    (hterm : n'.currentTerm = (s.nodes p).currentTerm) (hlog : n'.log = (s.nodes p).log)
    (hstate : n'.state = (s.nodes p).state) (hmatch : n'.matchIndex = (s.nodes p).matchIndex)
    (hnext : n'.nextIndex = (s.nodes p).nextIndex)
    (hcommit : n'.commitIndex = (s.nodes p).commitIndex) : ∃ a', Matched f m a p n' a' :=
  ⟨_, matched_same hf h.inv h.numbered (h.node p) hterm hlog hstate hmatch hnext hcommit⟩

/-- The calls of a client, of a timer and of a waiting task. -/
theorem matched_call (hf : IsSlack f) (hv : VoteRel m a.ballot s) (h : LogRel f m a s)
    {p : String} (hp : p ∈ m.members) {e : NodeEvent} {n' : RaftNode}
    (hstep : (s.nodes p).step e = some n') (hplain : e.IsPlain)
    (hkeeps : (s.nodes p).KeepsTermAndVote e) (hfits : (s.nodes p).FitsSlack f (s.Shows p) e)
    (hquorum : ∀ clock term, e = .voteQuorum clock term → CallOk m s.polls p (.voteQuorum term))
    (halone : ∀ clock, e = .preVoteAlone clock → m.peers p = [])
    (happend : ∀ clock args, e ≠ .appendEntries clock args)
    (hack : ∀ clock peer args reply, e = .appendReply clock peer args reply →
      reply.success = true → args.prevLogIndex + args.entries.length ≤ a.ack peer args.term) :
    ∃ a', Matched f m a p n' a' := by
  have hnode := h.node p
  have hvotes := hv.votes p
  have hpassive : ∀ {n' : RaftNode}, (s.nodes p).currentTerm ≤ n'.currentTerm →
      n'.log = (s.nodes p).log → n'.commitIndex ≤ (s.nodes p).commitIndex →
      n'.state ≠ .candidate → n'.state ≠ .leader →
      ∃ a', Matched f m a p n' a' := fun hle hlog hcommit hc hl =>
    ⟨_, matched_passive h.inv h.numbered hnode hle hlog hcommit hc hl⟩
  have hsame : ∃ a', Matched f m a p (s.nodes p) a' := matched_of_same hf h rfl rfl rfl rfl rfl rfl
  cases e with
  | propose command =>
    obtain rfl := Option.some.inj hstep
    exact matched_appends hf h.inv h.numbered hnode hvotes
      (propose_appends (P := fun c => c.isPlain = true) hplain _)
  | proposeBatch commands =>
    obtain rfl := Option.some.inj hstep
    exact matched_appends hf h.inv h.numbered hnode hvotes
      (proposeBatch_appends (P := fun c => c.isPlain = true) hplain _)
  | proposeAbortTx txId =>
    obtain rfl := Option.some.inj hstep
    exact matched_appends hf h.inv h.numbered hnode hvotes
      (proposeAbortTx_appends (P := fun c => c.isPlain = true) rfl _)
  | requestVote clock args =>
    obtain rfl := Option.some.inj hstep
    exact matched_requestVote hf h.inv h.numbered hnode clock args
  | preVote clock args =>
    obtain rfl := Option.some.inj hstep
    unfold handlePreVote
    dsimp only
    split_ifs <;> exact matched_of_same hf h rfl rfl rfl rfl rfl rfl
  | appendEntries clock args => exact absurd rfl (happend clock args)
  | becomeCandidate clock =>
    obtain rfl := Option.some.inj hstep
    exact ⟨_, matched_promote h.inv h.numbered hnode clock hkeeps⟩
  | enterPreVote probedTerm =>
    obtain rfl := Option.some.inj hstep
    unfold enterPreVote
    split_ifs
    · exact hpassive le_rfl rfl le_rfl nofun nofun
    · exact hsame
  | preVoteAlone clock =>
    obtain rfl := Option.some.inj hstep
    exact matched_preVoteAlone hv h hp (halone clock rfl) clock hkeeps
  | preVoteStale =>
    obtain rfl := Option.some.inj hstep
    unfold preVoteStale
    split_ifs
    · exact hpassive le_rfl rfl le_rfl nofun nofun
    · exact hsame
  | preVoteQuorum clock =>
    obtain rfl := Option.some.inj hstep
    unfold preVoteQuorum
    split_ifs with hs
    · exact hsame
    · exact ⟨_, matched_promote h.inv h.numbered hnode clock (hkeeps (not_not.mp hs))⟩
  | voteQuorum clock term =>
    obtain rfl := Option.some.inj hstep
    exact matched_voteQuorum hf hv h hp (hquorum clock term rfl) clock hfits
  | voteRefused term reply =>
    obtain rfl := Option.some.inj hstep
    unfold voteRefused
    split_ifs with hlt
    · have hle : (s.nodes p).currentTerm ≤ reply.term := by
        rcases hkeeps hlt with hnewer | ⟨heq, -⟩ <;> omega
      obtain ⟨storage, -, -, -, heq⟩ := stepDown_eq reply.term (s.nodes p)
      rw [heq]
      exact hpassive hle rfl le_rfl nofun nofun
    · exact hsame
  | syncAlone clock =>
    obtain rfl := Option.some.inj hstep
    unfold syncAlone
    split_ifs
    · exact ⟨a, matched_maybeCommit hf h.inv h.numbered hnode hvotes (hv.static p) hp clock⟩
    · exact hsame
  | appendReply clock peer args reply =>
    obtain rfl := Option.some.inj hstep
    refine matched_appendReply hf h.inv h.numbered hnode hvotes (hv.static p) hp clock
      fun hsuccess hs => ?_
    by_cases hterm : args.term = (s.nodes p).currentTerm
    · exact Or.inr (Or.inl (hterm ▸ hack clock peer args reply rfl hsuccess))
    · exact (hfits hsuccess hs hterm).imp_right fun hshows => Or.inr (h.keepsUp hshows)
  | proposeAddNode | proposeRemoveNode | txVoteRequest | installSnapshot | coordinatorStepDown
  | maybeSnapshot => exact absurd hplain id

/-- Rounds of `sync_logs` go on from rounds, and begin with `sync_logs`. -/
theorem resume_next {clock : Clock} {n : RaftNode} {c : Call} {round : SyncRound}
    {rest : List String} (h : .syncPeers round rest ∈ (c.resume clock n).next) :
    c = .syncLogs ∧ round = n.syncRound ∨ ∃ peer, c = .syncPeers round (peer :: rest) := by
  cases c with
  | syncLogs =>
    simp only [Call.resume] at h
    split_ifs at h
    · simp at h
    · simp at h
      exact Or.inl ⟨rfl, h.1⟩
  | syncPeers round' rest' =>
    cases rest' with
    | nil => cases h
    | cons peer rest' =>
      simp only [Call.resume] at h
      cases hargs : n.syncPeer round' peer with
      | none => simp [hargs] at h
      | some args =>
        simp [hargs] at h
        obtain ⟨rfl, rfl⟩ := h
        exact Or.inr ⟨peer, rfl⟩
  | requestVotes =>
    simp only [Call.resume] at h
    split_ifs at h <;> simp at h
  | enterPreVote round' =>
    simp only [Call.resume] at h
    rcases hres : n.enterPreVote round'.args.term with ⟨ok, n'⟩
    rw [hres] at h
    cases ok with
    | false => cases h
    | true =>
      dsimp only at h
      split_ifs at h <;> simp at h
  | preVoteQuorum =>
    simp only [Call.resume] at h
    rcases hres : n.preVoteQuorum clock with ⟨ok, n'⟩
    rw [hres] at h
    cases ok <;> simp at h
  | voteQuorum | preVoteAlone | syncAlone => cases h

/-- `AppendEntries` are sent by rounds of `sync_logs`. -/
theorem resume_sent {clock : Clock} {n : RaftNode} {c : Call} {x : String × AppendEntriesArgs}
    (h : x ∈ (c.resume clock n).sent) : ∃ round rest, c = .syncPeers round (x.1 :: rest) ∧
      n.syncPeer round x.1 = some x.2 := by
  cases c with
  | syncPeers round rest =>
    cases rest with
    | nil => cases h
    | cons peer rest =>
      simp only [Call.resume] at h
      cases hargs : n.syncPeer round peer with
      | none => simp [hargs] at h
      | some args =>
        simp [hargs] at h
        obtain rfl := h
        exact ⟨round, rest, rfl, hargs⟩
  | enterPreVote round =>
    simp only [Call.resume] at h
    rcases hres : n.enterPreVote round.args.term with ⟨ok, n'⟩
    rw [hres] at h
    cases ok with
    | false => cases h
    | true =>
      dsimp only at h
      split_ifs at h <;> cases h
  | preVoteQuorum =>
    simp only [Call.resume] at h
    rcases hres : n.preVoteQuorum clock with ⟨ok, n'⟩
    rw [hres] at h
    cases ok <;> cases h
  | requestVotes | syncLogs | voteQuorum | preVoteAlone | syncAlone => cases h

end Steps

/-- A round of `sync_logs` that sends finds its node still leader of the term
it has read, or no longer, but with a log that ends in that term and with the
next entry for the peer in it or just behind it. -/
def Call.SendsForTerm (n : RaftNode) : Call → Prop
  | .syncPeers round (peer :: _) => n.state = .leader ∧ n.currentTerm = round.currentTerm ∨
      (∃ e ∈ n.log.getLast?, e.term = round.currentTerm) ∧ n.NextInLog peer
  | _ => True

section Steps

variable {f : RaftNode → Nat} {m : Membership} {a : Past} {s : Cluster}

/-- Such a node has a part of the log of the leader of that term. -/
theorem LogRel.sends_part (h : LogRel f m a s) {p peer : String} {round : SyncRound}
    {rest : List String}
    (hsends : (Call.syncPeers round (peer :: rest)).SendsForTerm (s.nodes p)) :
    (∃ r, a.reign round.currentTerm = some r ∧ (s.nodes p).log <+: r.log) ∧
      (s.nodes p).NextInLog peer := by
  have hnode := h.node p
  rcases hsends with ⟨hs, hterm⟩ | ⟨⟨e, he, hterm⟩, hnext⟩
  · obtain ⟨r, hr, hlead⟩ := hnode.leads hs
    have hlog : r.log = (s.nodes p).log := by
      rw [← h.inv.leader_log hr (by rw [hlead, hnode.term]), hlead, hnode.log]
    exact ⟨⟨r, hterm ▸ hr, hlog ▸ List.prefix_rfl⟩, hnode.next hs peer⟩
  · refine ⟨?_, hnext⟩
    have hlast : lastTerm LogEntry.term (s.nodes p).log = round.currentTerm := by
      rw [lastTerm, he, ← hterm]
      rfl
    have hne : (s.nodes p).log ≠ [] := by
      intro hnil
      rw [hnil] at he
      cases he
    rw [← hlast]
    refine prefix_reign (B := a.term p) ?_ hne
    rw [← hnode.log]
    exact h.inv.log_wf p

/-- A call gets the lock. -/
theorem LogRel.resume (hf : IsSlack f) (hv : VoteRel m a.ballot s) (h : LogRel f m a s)
    {p : String} (hp : p ∈ m.members) {c : Call} (hc : CallOk m s.polls p c)
    (hsync : ∀ round rest, c = .syncPeers round rest → SyncOk m a p round)
    (clock : Clock) (hsends : c.SendsForTerm (s.nodes p))
    (hkeeps : ∀ e, c.nodeEvent clock = some e → (s.nodes p).KeepsTermAndVote e)
    (hfits : ∀ e, c.nodeEvent clock = some e → (s.nodes p).FitsSlack f (s.Shows p) e) :
    ∃ a', Steps (majority m.members) LogEntry.term p a a' ∧
      a'.ballot = recordIf a.ballot (c.nodeEvent clock) p (c.resume clock (s.nodes p)).node ∧
      LogRel f m a' (s.finish p (c.resume clock (s.nodes p))) := by
  rcases c.resume_node clock (s.nodes p) with ⟨hnone, hnode⟩ | ⟨e, he, hstep⟩
  · refine ⟨a, Relation.ReflTransGen.refl, by rw [hnone]; rfl, LogRel.finish ?_ ?_ ?_⟩
    · rw [hnode, Cluster.setNode_self]
      exact h
    · intro round rest hmem
      rcases resume_next hmem with ⟨-, rfl⟩ | ⟨peer, hpeer⟩
      · exact syncRound_ok h p
      · exact hsync round _ hpeer
    · intro x hx
      obtain ⟨round, rest, rfl, hargs⟩ := resume_sent hx
      obtain ⟨⟨r, hr, hpart⟩, hnext⟩ := h.sends_part hsends
      exact ⟨r, syncPeer_ok (hsync round _ rfl) hr (h.node p).log hpart hnext hargs⟩
  · have hplain : e.IsPlain := by cases c <;> cases he <;> trivial
    obtain ⟨a', hm⟩ := matched_call hf hv h hp hstep hplain (hkeeps e he) (hfits e he)
      (by rintro clock' term rfl; cases c <;> cases he; exact hc)
      (by rintro clock' rfl; cases c <;> cases he; exact hc)
      (by rintro clock' args rfl; cases c <;> cases he)
      (by rintro clock' peer args reply rfl; cases c <;> cases he)
    refine ⟨a', hm.steps, by rw [he]; exact hm.ballot, LogRel.finish (h.setNode hm) ?_ ?_⟩
    · intro round rest hmem
      rcases resume_next hmem with ⟨rfl, -⟩ | ⟨peer, rfl⟩ <;> cases he
    · intro x hx
      obtain ⟨round, rest, rfl, -⟩ := resume_sent hx
      cases he

/-- A node handles a request. -/
theorem LogRel.deliver (hf : IsSlack f) (hv : VoteRel m a.ballot s) (h : LogRel f m a s)
    {i : Nat} {rpc : Rpc} (hrpc : s.rpcs[i]? = some rpc) (clock : Clock) :
    ∃ a', Steps (majority m.members) LogEntry.term rpc.dst a a' ∧
      a'.ballot = observe a.ballot rpc.dst (rpc.request.handle clock (s.nodes rpc.dst)).2 ∧
      LogRel f m a'
        { s.setNode rpc.dst (rpc.request.handle clock (s.nodes rpc.dst)).2 with
          replies := s.replies ++ [(i, (rpc.request.handle clock (s.nodes rpc.dst)).1)] } := by
  have hmem := List.mem_of_getElem? hrpc
  have hok := hv.rpc rpc hmem
  have hdst : rpc.dst ∈ m.members := Membership.mem_of_mem_peers hok.src hok.dst
  have hstep : (s.nodes rpc.dst).step (rpc.request.nodeEvent clock) =
      some (rpc.request.handle clock (s.nodes rpc.dst)).2 := by
    cases rpc.request <;> rfl
  suffices hm : ∃ a', Matched f m a rpc.dst (rpc.request.handle clock (s.nodes rpc.dst)).2 a' ∧
      ConfirmOk a' rpc (rpc.request.handle clock (s.nodes rpc.dst)).1 by
    obtain ⟨a', hm, hconfirm⟩ := hm
    exact ⟨a', hm.steps, hm.ballot, (h.setNode hm).addReply hrpc hconfirm⟩
  cases hreq : rpc.request with
  | appendEntries args =>
    obtain ⟨r, happend⟩ := h.append rpc hmem args hreq
    have hplain : PlainLog args.entries := by
      have := hok.request
      rwa [hreq] at this
    obtain ⟨a', hm, hack⟩ := matched_appendEntries hf h.inv h.numbered (h.node rpc.dst)
      (hv.votes rpc.dst) (hv.static rpc.dst).plain happend hplain clock
    refine ⟨a', hm, fun args' r' hreq' hr' hsuccess => ?_⟩
    obtain rfl : args = args' := Request.appendEntries.inj (hreq.symm.trans hreq')
    obtain rfl := Reply.append.inj hr'
    exact hack hsuccess
  | requestVote k args =>
    obtain ⟨a', hm⟩ := matched_requestVote hf h.inv h.numbered (h.node rpc.dst) clock args
    exact ⟨a', hm, fun _ _ hreq' => by rw [hreq] at hreq'; cases hreq'⟩
  | preVote k args =>
    rw [hreq] at hstep
    obtain ⟨a', hm⟩ :=
      matched_call hf hv h hdst hstep trivial trivial trivial nofun nofun nofun nofun
    exact ⟨a', hm, fun _ _ hreq' => by rw [hreq] at hreq'; cases hreq'⟩

theorem LogRel.later (h : LogRel f m a s) {rpcs' : List Rpc}
    (hl : List.Forall₂ Rpc.Later s.rpcs rpcs') : LogRel f m a { s with rpcs := rpcs' } := by
  refine ⟨h.inv, h.numbered, h.node, h.sync, fun rpc' hr' args hreq => ?_, fun x hx => ?_⟩
  · obtain ⟨rpc, hr, hlater⟩ := later_mem_right hl rpc' hr'
    exact h.append rpc hr args (hlater.request ▸ hreq)
  · obtain ⟨rpc, hrpc, hok⟩ := h.confirm x hx
    obtain ⟨rpc', hrpc', hlater⟩ := later_get hl hrpc
    refine ⟨rpc', hrpc', fun args r hreq hr hs => ?_⟩
    rw [hlater.dst]
    exact hok args r (hlater.request ▸ hreq) hr hs

theorem LogRel.countVote (h : LogRel f m a s) (k : Nat) (p : String) (term : Nat) :
    LogRel f m a (Cluster.countVote k p term s) := by
  obtain ⟨polls, next, heq, -, hnext⟩ := Cluster.countVote_eq k p term s
  rw [heq]
  refine (h.tallies polls s.probes).addCalls fun round rest hc => ?_
  rcases hnext with rfl | rfl <;> simp at hc

theorem LogRel.countProbe (h : LogRel f m a s) (k : Nat) (p : String) :
    LogRel f m a (Cluster.countProbe k p s) := by
  obtain ⟨probes, next, heq, hnext⟩ := Cluster.countProbe_eq k p s
  rw [heq]
  refine (h.tallies s.polls probes).addCalls fun round rest hc => ?_
  rcases hnext with rfl | rfl <;> simp at hc

/-- The task of a waiting RPC processes a reply. -/
theorem LogRel.receive (hf : IsSlack f) (hv : VoteRel m a.ballot s) (h : LogRel f m a s)
    {i : Nat} {rpc : Rpc} (hrpc : s.rpcs[i]? = some rpc) {reply : Reply}
    (hok : ConfirmOk a rpc reply) (clock : Clock)
    (hkeeps : ∀ e, Cluster.processEvent clock rpc reply = some e →
      (s.nodes rpc.src).KeepsTermAndVote e)
    (hfits : ∀ e, Cluster.processEvent clock rpc reply = some e →
      (s.nodes rpc.src).FitsSlack f (s.Shows rpc.src) e) {s' : Cluster}
    (hs' : Cluster.process clock rpc reply
      { s with rpcs := s.rpcs.set i { rpc with waiting := false } } = s') :
    ∃ a', Steps (majority m.members) LogEntry.term rpc.src a a' ∧
      a'.ballot = recordIf a.ballot (Cluster.processEvent clock rpc reply) rpc.src
        (s'.nodes rpc.src) ∧ LogRel f m a' s' := by
  have hsrc := (hv.rpc rpc (List.mem_of_getElem? hrpc)).src
  have hlater := h.later (later_set hrpc)
  have hvlater := hv.later (later_set hrpc)
  rcases Cluster.process_cases clock rpc reply
    { s with rpcs := s.rpcs.set i { rpc with waiting := false } } with
    ⟨e, n', he, hstep, heq⟩ | ⟨hnone, hcases⟩
  · obtain rfl := heq.symm.trans hs'
    have hm : ∃ a', Matched f m a rpc.src n' a' := by
      rcases Cluster.processEvent_cases he with
        ⟨term, r, rfl⟩ | rfl | ⟨args, r, rfl, hreq, rfl⟩
      · exact matched_call hf hvlater hlater hsrc hstep trivial (hkeeps _ he) trivial nofun nofun
          nofun nofun
      · exact matched_call hf hvlater hlater hsrc hstep trivial trivial trivial nofun nofun nofun
          nofun
      · refine matched_call hf hvlater hlater hsrc hstep trivial trivial (hfits _ he) nofun nofun
          nofun ?_
        rintro clock' peer args' r' heq hsuccess
        cases heq
        exact hok args r hreq rfl hsuccess
    obtain ⟨a', hm⟩ := hm
    refine ⟨a', hm.steps, ?_, hlater.setNode hm⟩
    rw [he, Cluster.setNode_nodes_self]
    exact hm.ballot
  · refine ⟨a, Relation.ReflTransGen.refl, by rw [hnone]; rfl, ?_⟩
    rw [← hs']
    rcases hcases with heq | ⟨k, term, heq⟩ | ⟨k, heq⟩ <;> rw [heq]
    · exact hlater
    · exact hlater.countVote k rpc.src term
    · exact hlater.countProbe k rpc.src

end Steps

/-! ## Runs -/

instance (n : RaftNode) (peer : String) : Decidable (n.NextInLog peer) :=
  inferInstanceAs (Decidable (_ ∧ _))

instance (n : RaftNode) (c : Call) : Decidable (c.SendsForTerm n) := by
  unfold Call.SendsForTerm
  split <;> infer_instance

/-- No round of `sync_logs` sends for a term that is not that of its node's
log. -/
def Cluster.SendsForTerm (s : Cluster) : Event → Prop
  | .resume k _ => ∀ c ∈ s.calls[k]?, c.2.SendsForTerm (s.nodes c.1)
  | _ => True

instance (s : Cluster) (e : Event) : Decidable (s.SendsForTerm e) :=
  decidable_of_iff
    ((match e with
      | .resume k _ => decide (∀ c ∈ s.calls[k]?, c.2.SendsForTerm (s.nodes c.1))
      | _ => true) = true) (by cases e <;> simp only [Cluster.SendsForTerm, decide_eq_true_eq])

instance (s : Cluster) (p q : String) (k : Nat) : Decidable (s.Shows p q k) :=
  inferInstanceAs (Decidable (_ ∧ _ ∧ _))

/-- The call that a step makes on a node keeps to the slack. -/
def Cluster.FitsSlack (f : RaftNode → Nat) (s : Cluster) (e : Event) : Prop :=
  ∀ c ∈ s.nodeEvent e, (s.nodes c.1).FitsSlack f (s.Shows c.1) c.2

instance (f : RaftNode → Nat) (shows : String → Nat → Prop) [∀ q k, Decidable (shows q k)]
    (n : RaftNode) (e : NodeEvent) : Decidable (n.FitsSlack f shows e) :=
  decidable_of_iff
    ((match e with
      | .voteQuorum _ term =>
          decide (n.state = .candidate → n.currentTerm = term →
            ∀ q ∈ n.peers, n.matchIndexFor q ≤ f n ∨ shows q (n.matchIndexFor q))
      | .appendReply _ peer args reply =>
          decide (reply.success = true → n.state = .leader → args.term ≠ n.currentTerm →
            args.prevLogIndex + args.entries.length ≤ f n ∨
              shows peer (args.prevLogIndex + args.entries.length))
      | _ => true) = true) (by cases e <;> simp only [RaftNode.FitsSlack, decide_eq_true_eq])

instance (f : RaftNode → Nat) (s : Cluster) (e : Event) : Decidable (s.FitsSlack f e) :=
  inferInstanceAs (Decidable (∀ c ∈ s.nodeEvent e, (s.nodes c.1).FitsSlack f (s.Shows c.1) c.2))

/-- No crash; votes are not taken back; entries are sent for the term of the
log that they are from; and what a leader has on record from before stays
within the slack, or is in the log of the peer. -/
structure LogsStand (f : RaftNode → Nat) (s : Cluster) (e : Event) : Prop where
  votes : VotesStand s e
  sends : s.SendsForTerm e
  slack : s.FitsSlack f e

instance (f : RaftNode → Nat) (s : Cluster) (e : Event) : Decidable (LogsStand f s e) :=
  decidable_of_iff (VotesStand s e ∧ s.SendsForTerm e ∧ s.FitsSlack f e)
    ⟨fun ⟨h₁, h₂, h₃⟩ => ⟨h₁, h₂, h₃⟩, fun ⟨h₁, h₂, h₃⟩ => ⟨h₁, h₂, h₃⟩⟩

theorem start_logRel (f : RaftNode → Nat) (m : Membership) :
    LogRel f m State.init (Cluster.start m) where
  inv := init_inv
  numbered := nofun
  node := fun _ => ⟨rfl, rfl, nofun, nofun, nofun, nofun, le_rfl, Committed.nil⟩
  sync := nofun
  append := nofun
  confirm := nofun

section Steps

variable {f : RaftNode → Nat} {m : Membership} {a : Past} {s s' : Cluster}

/-- A call on a node and nothing else. -/
theorem LogRel.call_node (hf : IsSlack f) (hv : VoteRel m a.ballot s) (h : LogRel f m a s)
    {p : String} (hp : p ∈ m.members) {e : NodeEvent} {n' : RaftNode}
    (hstep : (s.nodes p).step e = some n') (hplain : e.IsPlain)
    (hkeeps : (s.nodes p).KeepsTermAndVote e) (hfits : (s.nodes p).FitsSlack f (s.Shows p) e)
    (hquorum : ∀ clock term, e ≠ .voteQuorum clock term)
    (halone : ∀ clock, e ≠ .preVoteAlone clock)
    (happend : ∀ clock args, e ≠ .appendEntries clock args)
    (hreply : ∀ clock peer args r, e ≠ .appendReply clock peer args r) :
    ∃ a', Steps (majority m.members) LogEntry.term p a a' ∧
      a'.ballot = observe a.ballot p n' ∧ LogRel f m a' (s.setNode p n') := by
  obtain ⟨a', hm⟩ := matched_call hf hv h hp hstep hplain hkeeps hfits
    (fun _ _ heq => absurd heq (hquorum _ _)) (fun _ heq => absurd heq (halone _)) happend
    (fun _ _ _ _ heq => absurd heq (hreply _ _ _ _))
  exact ⟨a', hm.steps, hm.ballot, h.setNode hm⟩

theorem LogRel.call_quiet (hf : IsSlack f) (hv : VoteRel m a.ballot s) (h : LogRel f m a s)
    {p : String} (hp : p ∈ m.members) {e : NodeEvent} {n' : RaftNode}
    (hstep : (s.nodes p).step e = some n') (hplain : e.IsPlain)
    (hkeeps : (s.nodes p).KeepsTermAndVote e) (hfits : (s.nodes p).FitsSlack f (s.Shows p) e)
    (hquiet : e.isQuiet = true) :
    ∃ a', Steps (majority m.members) LogEntry.term p a a' ∧
      a'.ballot = observe a.ballot p n' ∧ LogRel f m a' (s.setNode p n') := by
  refine h.call_node hf hv hp hstep hplain hkeeps hfits ?_ ?_ ?_ ?_
  · rintro clock term rfl
    cases hquiet
  · rintro clock rfl
    cases hquiet
  · rintro clock args rfl
    cases hquiet
  · rintro clock peer args r rfl
    cases hquiet

theorem step_logRel (hf : IsSlack f) (hv : VoteRel m a.ballot s) (h : LogRel f m a s) {e : Event}
    (hstand : LogsStand f s e) (hstep : s.step m e = some s') :
    ∃ q a', Steps (majority m.members) LogEntry.term q a a' ∧
      a'.ballot = ballotsAfter a.ballot s s' e ∧ LogRel f m a' s' := by
  obtain ⟨⟨hcrash, hkeeps⟩, hsends, hfits⟩ := hstand
  cases e with
  | becomeCandidate p clock =>
    simp only [Cluster.step] at hstep
    split_ifs at hstep with hp
    obtain rfl := Option.some.inj hstep
    obtain ⟨a', hsteps, hballot, hrel⟩ := h.call_quiet hf hv hp (e := .becomeCandidate clock) rfl
      trivial (hkeeps _ rfl) trivial rfl
    refine ⟨_, a', hsteps, hballot.trans ?_, hrel.addCalls (by simp)⟩
    simp [ballotsAfter, Cluster.nodeEvent, Cluster.addCalls]
  | becomePreCandidate p =>
    simp only [Cluster.step] at hstep
    split_ifs at hstep with hp
    obtain rfl := Option.some.inj hstep
    exact ⟨p, a, Relation.ReflTransGen.refl, rfl, h.addCalls (by simp)⟩
  | propose p command =>
    simp only [Cluster.step] at hstep
    split_ifs at hstep with hp
    obtain rfl := Option.some.inj hstep
    obtain ⟨a', hsteps, hballot, hrel⟩ := h.call_quiet hf hv hp.1 (e := .propose command) rfl hp.2
      trivial trivial rfl
    refine ⟨_, a', hsteps, hballot.trans ?_, hrel⟩
    simp [ballotsAfter, Cluster.nodeEvent]
  | proposeBatch p commands =>
    simp only [Cluster.step] at hstep
    split_ifs at hstep with hp
    obtain rfl := Option.some.inj hstep
    obtain ⟨a', hsteps, hballot, hrel⟩ := h.call_quiet hf hv hp.1 (e := .proposeBatch commands)
      rfl (List.all_eq_true.mp hp.2) trivial trivial rfl
    refine ⟨_, a', hsteps, hballot.trans ?_, hrel⟩
    simp [ballotsAfter, Cluster.nodeEvent]
  | proposeAbortTx p txId =>
    simp only [Cluster.step] at hstep
    split_ifs at hstep with hp
    obtain rfl := Option.some.inj hstep
    obtain ⟨a', hsteps, hballot, hrel⟩ := h.call_quiet hf hv hp (e := .proposeAbortTx txId) rfl
      trivial trivial trivial rfl
    refine ⟨_, a', hsteps, hballot.trans ?_, hrel⟩
    simp [ballotsAfter, Cluster.nodeEvent]
  | leaderCheck p =>
    simp only [Cluster.step] at hstep
    split_ifs at hstep with hp hlead
    · obtain rfl := Option.some.inj hstep
      exact ⟨p, a, Relation.ReflTransGen.refl, rfl, h.addCalls (by simp)⟩
    · obtain rfl := Option.some.inj hstep
      exact ⟨p, a, Relation.ReflTransGen.refl, rfl, h⟩
  | resume k clock =>
    simp only [Cluster.step, Option.map_eq_some_iff] at hstep
    obtain ⟨c, hk, rfl⟩ := hstep
    have hmem := List.mem_of_getElem? hk
    have hsync : ∀ round rest, c.2 = .syncPeers round rest →
        SyncOk m a c.1 round := by
      intro round rest hc
      have hcall : (c.1, Call.syncPeers round rest) ∈ s.calls := hc ▸ hmem
      exact h.sync hcall
    obtain ⟨a', hsteps, hballot, hrel⟩ := (h.eraseCall k).resume hf (hv.eraseCall k)
      (hv.member c hmem) (hv.call c hmem) hsync
      clock (hsends c hk)
      (fun e he => hkeeps (c.1, e) (by simp [Cluster.nodeEvent, hk, he]))
      (fun e he => hfits (c.1, e) (by simp [Cluster.nodeEvent, hk, he]))
    refine ⟨_, a', hsteps, hballot.trans ?_, hrel⟩
    unfold ballotsAfter recordIf
    cases he : c.2.nodeEvent clock <;> simp [Cluster.nodeEvent, hk, he]
  | deliver i clock =>
    simp only [Cluster.step, Option.map_eq_some_iff] at hstep
    obtain ⟨rpc, hrpc, rfl⟩ := hstep
    obtain ⟨a', hsteps, hballot, hrel⟩ := h.deliver hf hv hrpc clock
    refine ⟨_, a', hsteps, hballot.trans ?_, hrel⟩
    simp [ballotsAfter, Cluster.nodeEvent, hrpc, Cluster.setNode]
  | receive j clock =>
    simp only [Cluster.step, Option.bind_eq_some_iff] at hstep
    obtain ⟨r, hj, rpc, hrpc, hstep⟩ := hstep
    split_ifs at hstep with hwait
    have hs' := Option.some.inj hstep
    obtain ⟨rpc', hrpc', hok⟩ := h.confirm r (List.mem_of_getElem? hj)
    obtain rfl : rpc = rpc' := Option.some.inj (hrpc.symm.trans hrpc')
    obtain ⟨a', hsteps, hballot, hrel⟩ := h.receive hf hv hrpc hok clock
      (fun e he => hkeeps (rpc.src, e) (by simp [Cluster.nodeEvent, hj, hrpc, he]))
      (fun e he => hfits (rpc.src, e) (by simp [Cluster.nodeEvent, hj, hrpc, he])) hs'
    refine ⟨_, a', hsteps, hballot.trans ?_, hrel⟩
    unfold ballotsAfter recordIf
    cases he : Cluster.processEvent clock rpc r.2 <;> simp [Cluster.nodeEvent, hj, hrpc, he]
  | restart p clock => exact absurd trivial hcrash

end Steps

end OxideKv
