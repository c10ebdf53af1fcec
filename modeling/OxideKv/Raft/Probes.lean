import OxideKv.Raft.Restart

/-!
# Rounds of probes

What holds of the probes in every run of a cluster, with failing files and with
crashes.  Three things are carried along.

* The membership stays as it is (`Fixed`).  A restarted node reads its log from
  the log file, so no configuration is in that file either.
* The counter of a round of probes is the number of the peers that have granted
  one of its requests (`ProbeOk`): each peer is asked once, and the task of a
  request counts one reply to it.
* A node is promoted after its probes only if a counter is above one half of
  the members (`ProbeCallOk`).

`run_probeRel` puts them together.
-/

namespace OxideKv

open RaftNode Run

/-! ## The membership stays fixed -/

/-- The node has the peers it was started with, and knows of no other
configuration. -/
structure Fixed (m : Membership) (p : String) (n : RaftNode) : Prop extends Static m p n where
  wal : PlainLog n.storage.wal

/-- A record is written, or it is not. -/
theorem RaftStorage.appendWalLog_wal (entry : LogEntry) (s : RaftStorage) :
    (appendWalLog entry s).2.wal = s.wal ∨ (appendWalLog entry s).2.wal = s.wal ++ [entry] := by
  rcases s with ⟨wal, metaFile, snap, _ | ⟨_ | _, _ | ⟨_ | _, _ | ⟨_ | _, faults⟩⟩⟩, metaFaults⟩
  all_goals first | exact Or.inl rfl | exact Or.inr rfl

theorem plainLog_append {log entries : List LogEntry} (h : PlainLog log)
    (hentries : PlainLog entries) : PlainLog (log ++ entries) := by
  intro e he
  rcases List.mem_append.mp he with he | he
  · exact h e he
  · exact hentries e he

theorem plainLog_singleton {entry : LogEntry} (h : entry.command.isPlain = true) :
    PlainLog [entry] := by
  intro e he
  rw [List.mem_singleton.mp he]
  exact h

theorem appendWalLog_plain {entry : LogEntry} (hplain : entry.command.isPlain = true)
    {s : RaftStorage} (h : PlainLog s.wal) :
    PlainLog (RaftStorage.appendWalLog entry s).2.wal := by
  rcases RaftStorage.appendWalLog_wal entry s with heq | heq
  · rw [heq]
    exact h
  · rw [heq]
    exact plainLog_append h (plainLog_singleton hplain)

namespace RaftNode

/-! The log file of a node gets no configuration. -/

variable {n n' : RaftNode}

theorem appendEntry_plainWal (entry : LogEntry) (hplain : entry.command.isPlain = true)
    (h : PlainLog n.storage.wal) : PlainLog (appendEntry entry n).2.storage.wal := by
  have hwal := appendWalLog_plain hplain h
  unfold appendEntry
  split
  all_goals
    rename_i heq
    rw [heq] at hwal
    exact hwal

theorem proposeBatchFrom_plainWal {commands : List Command} : ∀ {n : RaftNode} {index : Nat},
    (∀ c ∈ commands, c.isPlain = true) → PlainLog n.storage.wal →
      PlainLog (proposeBatchFrom index commands n).2.storage.wal := by
  induction commands with
  | nil => exact fun _ h => h
  | cons command rest ih =>
    intro n index hplain h
    have happend := appendEntry_plainWal
      { term := n.currentTerm, index := index, command := command }
      (hplain command List.mem_cons_self) h
    unfold proposeBatchFrom
    split
    · rename_i heq
      rw [heq] at happend
      exact ih (fun c hc => hplain c (List.mem_cons_of_mem command hc)) happend
    · rename_i heq
      rw [heq] at happend
      exact happend

theorem foldl_mergeEntry_plainWal {entries : List LogEntry} : ∀ {n : RaftNode},
    PlainLog entries → PlainLog n.storage.wal →
      PlainLog (entries.foldl mergeEntry n).storage.wal := by
  induction entries with
  | nil => exact fun _ h => h
  | cons entry entries ih =>
    intro n hplain h
    have hwal := appendWalLog_plain (hplain entry List.mem_cons_self) h
    have hmerge : PlainLog (mergeEntry n entry).storage.wal := by
      unfold mergeEntry appendWal
      dsimp only
      split
      · split_ifs
        · exact hwal
        · exact h
      · exact hwal
    exact ih (fun e he => hplain e (List.mem_cons_of_mem entry he)) hmerge

theorem handleAppendEntries_plainWal (clock : Clock) {args : AppendEntriesArgs}
    (hplain : PlainLog args.entries) (hlog : PlainLog n.log) (h : PlainLog n.storage.wal) :
    PlainLog (handleAppendEntries clock args n).2.storage.wal := by
  rcases handleAppendEntries_cases clock args n with ⟨-, heq⟩ | ⟨⟨hle, -⟩, hcases⟩
  · rw [heq]
    exact h
  · obtain ⟨storage, hwal, -, -, hfollow⟩ := followLeader_eq clock hle
    have hfollowed : PlainLog (followLeader clock args.term n).storage.wal := by
      rw [hfollow]
      exact hwal ▸ h
    rcases hcases with ⟨-, heq⟩ | ⟨-, heq⟩
    · rw [heq]
      exact hfollowed
    · have hmerged := foldl_mergeEntry_plainWal hplain hfollowed
      obtain ⟨storage', -, -, hmerge⟩ :=
        foldl_mergeEntry_eq args.entries (followLeader clock args.term n)
      have hmergedLog : PlainLog (args.entries.foldl mergeEntry
          (followLeader clock args.term n)).log := by
        rw [hmerge, hfollow]
        exact plainLog_merge hlog hplain
      rw [heq]
      unfold followCommit
      split_ifs
      · obtain ⟨sm, happly⟩ := applyLogs_plain clock
          (n := { args.entries.foldl mergeEntry (followLeader clock args.term n) with
            commitIndex := min args.leaderCommit
              (args.entries.foldl mergeEntry (followLeader clock args.term n)).log.length })
          hmergedLog (Nat.min_le_right _ _)
        rw [happly]
        exact hmerged
      · exact hmerged

theorem maybeCommit_plainWal (clock : Clock) (hlog : PlainLog n.log)
    (h : PlainLog n.storage.wal) : PlainLog (maybeCommit clock n).storage.wal := by
  rcases maybeCommit_plain clock hlog with heq | ⟨c, sm, -, -, -, -, -, heq⟩
  · rw [heq]
    exact h
  · rw [heq]
    exact h

theorem RoleMoved.plainWal (hmoved : RoleMoved n n') (h : PlainLog n.storage.wal) :
    PlainLog n'.storage.wal := by
  obtain ⟨storage, hwal, -, -, _, _, _, _, _, rfl⟩ := hmoved
  exact hwal ▸ h

theorem step_plainWal {e : NodeEvent} (hlog : PlainLog n.log) (h : PlainLog n.storage.wal)
    (he : e.IsPlain) (hstep : n.step e = some n') : PlainLog n'.storage.wal := by
  cases e with
  | propose command =>
    obtain rfl := Option.some.inj hstep
    unfold propose
    split_ifs
    · exact h
    · have happend := appendEntry_plainWal (n.nextEntry command) he h
      split
      all_goals
        rename_i heq
        rwa [heq] at happend
  | proposeBatch commands =>
    obtain rfl := Option.some.inj hstep
    unfold proposeBatch
    split_ifs
    · exact h
    · exact proposeBatchFrom_plainWal he h
  | proposeAbortTx txId =>
    obtain rfl := Option.some.inj hstep
    unfold proposeAbortTx
    split_ifs
    · exact h
    · exact h
    · have happend := appendEntry_plainWal (n.nextEntry (.decideTx txId .abort)) rfl h
      split
      all_goals
        rename_i heq
        rwa [heq] at happend
  | requestVote | preVote | becomeCandidate | enterPreVote | preVoteAlone | preVoteStale
  | preVoteQuorum | voteQuorum | voteRefused =>
    exact (step_roleMoved hstep rfl).plainWal h
  | appendEntries clock args =>
    obtain rfl := Option.some.inj hstep
    exact handleAppendEntries_plainWal clock he hlog h
  | syncAlone clock =>
    obtain rfl := Option.some.inj hstep
    unfold syncAlone
    split_ifs
    · exact maybeCommit_plainWal clock hlog h
    · exact h
  | appendReply clock peer args reply =>
    obtain rfl := Option.some.inj hstep
    unfold appendReply
    dsimp only
    split_ifs
    · refine maybeCommit_plainWal clock ?_ ?_
      · exact hlog
      · exact h
    · exact (stepDown_roleMoved reply.term n).plainWal h
    · exact h
    · exact h
  | proposeAddNode | proposeRemoveNode | txVoteRequest | installSnapshot | coordinatorStepDown
  | maybeSnapshot => exact absurd he id

end RaftNode

section Fixed

variable {m : Membership} {p : String} {n n' : RaftNode}

theorem Fixed.step {e : NodeEvent} (h : Fixed m p n) (he : e.IsPlain)
    (hstep : n.step e = some n') : Fixed m p n' :=
  ⟨step_static h.toStatic he hstep, step_plainWal h.plain h.wal he hstep⟩

/-- The files of a node bring no configuration either. -/
theorem Fixed.startup {clock : Clock} (h : Fixed m p n)
    (hstart : Cluster.startup m p clock n = some n') : Fixed m p n' := by
  unfold Cluster.startup at hstart
  split at hstart
  · cases hstart
  · rename_i sm _
    obtain ⟨n₁, hrestore, rfl⟩ := Option.map_eq_some_iff.mp hstart
    obtain ⟨-, sm₁, commitIndex, lastApplied, rfl⟩ := restoreFromSnapshot_eq hrestore
    obtain ⟨sm', heq⟩ := @replayLogs_plain clock
      { RaftNode.new p (m.peers p) sm n.storage clock with
        stateMachine := sm₁
        commitIndex := commitIndex
        lastApplied := lastApplied } h.wal
    rw [heq]
    exact ⟨⟨rfl, rfl, rfl, h.wal⟩, h.wal⟩

end Fixed

/-! ## The relation -/

/-- The request is a probe of the round `k`. -/
def Rpc.probes (k : Nat) (rpc : Rpc) : Bool :=
  match rpc.request with
  | .preVote k' _ => k' == k
  | _ => false

theorem Rpc.Later.probes {rpc rpc' : Rpc} (h : rpc.Later rpc') (k : Nat) :
    rpc'.probes k = rpc.probes k := by
  unfold Rpc.probes
  rw [h.request]

def ProbeCallOk (m : Membership) (probes : List Tally) (p : String) : Call → Prop
  | .enterPreVote round => round.peers = m.peers p ∧ round.args.candidateId = p
  | .preVoteAlone => m.peers p = []
  | .preVoteQuorum => ∃ (k : Nat) (tally : Tally), probes[k]? = some tally ∧
      tally.round.args.candidateId = p ∧ tally.round.totalNodes / 2 < tally.votesReceived
  | _ => True

/-- The task of the request `i` of the round `k` has counted that `q` granted
it. -/
def CountedGrant (rpcs : List Rpc) (replies : List (Nat × Reply)) (k : Nat) (q : String) : Prop :=
  ∃ i rpc r, rpcs[i]? = some rpc ∧ rpc.probes k = true ∧ rpc.dst = q ∧ rpc.waiting = false ∧
    (i, .preVote r) ∈ replies ∧ r.voteGranted = true

structure ProbeOk (m : Membership) (rpcs : List Rpc) (replies : List (Nat × Reply)) (k : Nat)
    (tally : Tally) : Prop where
  member : tally.round.args.candidateId ∈ m.members
  peers : tally.round.peers = m.peers tally.round.args.candidateId
  dsts : (rpcs.filter (Rpc.probes k)).map Rpc.dst = tally.round.peers
  voters : ∃ voters : List String, voters.Nodup ∧ tally.votesReceived = voters.length ∧
    ∀ q ∈ voters, CountedGrant rpcs replies k q

def ProbeRequestOk (probes : List Tally) (src : String) : Request → Prop
  | .requestVote _ _ => True
  | .preVote k args => ∃ tally, probes[k]? = some tally ∧ tally.round.args = args ∧
      args.candidateId = src
  | .appendEntries args => PlainLog args.entries

structure ProbeRel (m : Membership) (s : Cluster) : Prop where
  node : ∀ p, Fixed m p (s.nodes p)
  member : ∀ c ∈ s.calls, c.1 ∈ m.members
  call : ∀ c ∈ s.calls, ProbeCallOk m s.probes c.1 c.2
  probe : ∀ {k tally}, s.probes[k]? = some tally → ProbeOk m s.rpcs s.replies k tally
  src : ∀ rpc ∈ s.rpcs, rpc.src ∈ m.members
  request : ∀ rpc ∈ s.rpcs, ProbeRequestOk s.probes rpc.src rpc.request

/-! ## The parts of a step -/

section Parts

variable {m : Membership} {s : Cluster}

theorem ProbeRel.setNode (h : ProbeRel m s) {p : String} {n' : RaftNode} (hn : Fixed m p n') :
    ProbeRel m (s.setNode p n') := by
  refine ⟨fun q => ?_, h.member, h.call, h.probe, h.src, h.request⟩
  show Fixed m q (Function.update s.nodes p n' q)
  by_cases hq : q = p
  · subst hq
    rw [Function.update_self]
    exact hn
  · rw [Function.update_of_ne hq]
    exact h.node q

theorem ProbeRel.addCalls (h : ProbeRel m s) {p : String} (hp : p ∈ m.members)
    {calls : List Call} (hcalls : ∀ c ∈ calls, ProbeCallOk m s.probes p c) :
    ProbeRel m (s.addCalls p calls) := by
  refine ⟨h.node, fun c hc => ?_, fun c hc => ?_, h.probe, h.src, h.request⟩
  · rcases List.mem_append.mp hc with hc | hc
    · exact h.member c hc
    · obtain ⟨c', -, rfl⟩ := List.mem_map.mp hc
      exact hp
  · rcases List.mem_append.mp hc with hc | hc
    · exact h.call c hc
    · obtain ⟨c', hc', rfl⟩ := List.mem_map.mp hc
      exact hcalls c' hc'

/-- Calls are taken out. -/
theorem ProbeRel.fewerCalls (h : ProbeRel m s) {calls : List (String × Call)}
    (hcalls : ∀ c ∈ calls, c ∈ s.calls) : ProbeRel m { s with calls := calls } :=
  ⟨h.node, fun c hc => h.member c (hcalls c hc), fun c hc => h.call c (hcalls c hc), h.probe,
    h.src, h.request⟩

theorem ProbeRel.addReply (h : ProbeRel m s) (r : Nat × Reply) :
    ProbeRel m { s with replies := s.replies ++ [r] } := by
  refine ⟨h.node, h.member, h.call, fun hk => ?_, h.src, h.request⟩
  have hprobe := h.probe hk
  obtain ⟨voters, hnodup, hcount, hvoters⟩ := hprobe.voters
  refine ⟨hprobe.member, hprobe.peers, hprobe.dsts, voters, hnodup, hcount, fun q hq => ?_⟩
  obtain ⟨i, rpc, v, hrpc, hprobes, hdst, hwait, hreply, hgranted⟩ := hvoters q hq
  exact ⟨i, rpc, v, hrpc, hprobes, hdst, hwait, List.mem_append_left _ hreply, hgranted⟩

/-- Requests other than probes are sent. -/
theorem ProbeRel.addRpcs (h : ProbeRel m s) {rpcs : List Rpc}
    (hsrc : ∀ rpc ∈ rpcs, rpc.src ∈ m.members)
    (hrequest : ∀ rpc ∈ rpcs, ProbeRequestOk s.probes rpc.src rpc.request)
    (hprobes : ∀ rpc ∈ rpcs, ∀ k, rpc.probes k = false) :
    ProbeRel m { s with rpcs := s.rpcs ++ rpcs } := by
  refine ⟨h.node, h.member, h.call, fun {k tally} hk => ?_, fun rpc hr => ?_, fun rpc hr => ?_⟩
  · have hprobe := h.probe hk
    obtain ⟨voters, hnodup, hcount, hvoters⟩ := hprobe.voters
    refine ⟨hprobe.member, hprobe.peers, ?_, voters, hnodup, hcount, fun q hq => ?_⟩
    · have hnone : rpcs.filter (Rpc.probes k) = [] :=
        List.filter_eq_nil_iff.mpr fun rpc hr => by simp [hprobes rpc hr k]
      rw [List.filter_append, hnone, List.append_nil]
      exact hprobe.dsts
    · obtain ⟨i, rpc, v, hrpc, hrest⟩ := hvoters q hq
      refine ⟨i, rpc, v, ?_, hrest⟩
      rw [List.getElem?_append_left (List.getElem?_eq_some_iff.mp hrpc).1]
      exact hrpc
  · rcases List.mem_append.mp hr with hr | hr
    · exact h.src rpc hr
    · exact hsrc rpc hr
  · rcases List.mem_append.mp hr with hr | hr
    · exact h.request rpc hr
    · exact hrequest rpc hr

theorem CountedGrant.later {rpcs rpcs' : List Rpc} {replies : List (Nat × Reply)} {k : Nat}
    {q : String} (h : CountedGrant rpcs replies k q)
    (hl : List.Forall₂ Rpc.Later rpcs rpcs') : CountedGrant rpcs' replies k q := by
  obtain ⟨i, rpc, v, hrpc, hprobes, hdst, hwait, hreply⟩ := h
  obtain ⟨rpc', hrpc', hlater⟩ := later_get hl hrpc
  exact ⟨i, rpc', v, hrpc', (hlater.probes k).trans hprobes, hlater.dst.trans hdst,
    hlater.waiting hwait, hreply⟩

theorem ProbeRel.later (h : ProbeRel m s) {rpcs' : List Rpc}
    (hl : List.Forall₂ Rpc.Later s.rpcs rpcs') : ProbeRel m { s with rpcs := rpcs' } := by
  refine ⟨h.node, h.member, h.call, fun {k tally} hk => ?_, fun rpc' hr' => ?_,
    fun rpc' hr' => ?_⟩
  · have hprobe := h.probe hk
    obtain ⟨voters, hnodup, hcount, hvoters⟩ := hprobe.voters
    exact ⟨hprobe.member, hprobe.peers,
      (later_dsts (fun hr => hr.probes k) hl).trans hprobe.dsts, voters, hnodup, hcount,
      fun q hq => (hvoters q hq).later hl⟩
  · obtain ⟨rpc, hr, hlater⟩ := later_mem_right hl rpc' hr'
    rw [hlater.src]
    exact h.src rpc hr
  · obtain ⟨rpc, hr, hlater⟩ := later_mem_right hl rpc' hr'
    rw [hlater.src, hlater.request]
    exact h.request rpc hr

theorem ProbeRel.setPolls (h : ProbeRel m s) (polls : List Tally) :
    ProbeRel m { s with polls := polls } :=
  ⟨h.node, h.member, h.call, h.probe, h.src, h.request⟩

theorem ProbeCallOk.grows {probes probes' : List Tally} {p : String} {c : Call}
    (h : ProbeCallOk m probes p c) (hg : PollsGrow probes probes') :
    ProbeCallOk m probes' p c := by
  cases c with
  | preVoteQuorum =>
    obtain ⟨k, tally, hk, hcand, hcount⟩ := h
    obtain ⟨tally', hk', hround, hvotes⟩ := hg hk
    exact ⟨k, tally', hk', by rw [hround, hcand], by rw [hround]; omega⟩
  | _ => exact h

theorem ProbeRequestOk.grows {probes probes' : List Tally} {src : String} {request : Request}
    (h : ProbeRequestOk probes src request) (hg : PollsGrow probes probes') :
    ProbeRequestOk probes' src request := by
  cases request with
  | preVote k args =>
    obtain ⟨tally, hk, hargs, hcand⟩ := h
    obtain ⟨tally', hk', hround, -⟩ := hg hk
    exact ⟨tally', hk', by rw [hround, hargs], hcand⟩
  | _ => exact h

theorem ProbeRequestOk.lt_length {probes : List Tally} {rpc : Rpc}
    (h : ProbeRequestOk probes rpc.src rpc.request) {k : Nat} (hk : rpc.probes k = true) :
    k < probes.length := by
  unfold Rpc.probes at hk
  split at hk
  · rename_i k' args hr
    rw [hr] at h
    obtain ⟨tally, htally, -⟩ := h
    obtain rfl : k' = k := by simpa using hk
    exact (List.getElem?_eq_some_iff.mp htally).1
  · cases hk

/-- A round of probes is opened. -/
theorem ProbeRel.openProbe (h : ProbeRel m s) {p : String} (hp : p ∈ m.members)
    {round : VoteRound} (hpeers : round.peers = m.peers p)
    (hcand : round.args.candidateId = p) : ProbeRel m (s.openProbe p round) := by
  have hg : PollsGrow s.probes (s.probes ++ [{ round := round, votesReceived := 0 }]) :=
    pollsGrow_append s.probes _
  have hprobes : ∀ k, (round.peers.map fun q =>
      ({ src := p, dst := q, request := .preVote s.probes.length round.args,
         waiting := true } : Rpc)).filter (Rpc.probes k) =
      if s.probes.length = k then round.peers.map fun q =>
        { src := p, dst := q, request := .preVote s.probes.length round.args, waiting := true }
      else [] := by
    intro k
    split_ifs with hk
    · exact List.filter_eq_self.mpr (by simp [Rpc.probes, hk])
    · exact List.filter_eq_nil_iff.mpr (by simp [Rpc.probes, hk])
  refine ⟨h.node, h.member, fun c hc => (h.call c hc).grows hg, fun {k tally} hk => ?_,
    fun rpc hr => ?_, fun rpc hr => ?_⟩
  · show ProbeOk m (s.rpcs ++ _) s.replies k tally
    have hk : (s.probes ++ [{ round := round, votesReceived := 0 }])[k]? = some tally := hk
    rcases Nat.lt_or_ge k s.probes.length with hlt | hge
    · rw [List.getElem?_append_left hlt] at hk
      have hprobe := h.probe hk
      obtain ⟨voters, hnodup, hcount, hvoters⟩ := hprobe.voters
      refine ⟨hprobe.member, hprobe.peers, ?_, voters, hnodup, hcount, fun q hq => ?_⟩
      · rw [List.filter_append, hprobes, if_neg (by omega), List.append_nil]
        exact hprobe.dsts
      · obtain ⟨i, rpc, v, hrpc, hrest⟩ := hvoters q hq
        refine ⟨i, rpc, v, ?_, hrest⟩
        rw [List.getElem?_append_left (List.getElem?_eq_some_iff.mp hrpc).1]
        exact hrpc
    · -- the new round, which nobody has answered
      rw [List.getElem?_append_right hge] at hk
      have hlt := (List.getElem?_eq_some_iff.mp hk).1
      have hlen : k = s.probes.length := by
        simp at hlt
        omega
      subst hlen
      obtain rfl : ({ round := round, votesReceived := 0 } : Tally) = tally := by simpa using hk
      refine ⟨by rw [hcand]; exact hp, by rw [hcand, hpeers], ?_, [], List.nodup_nil, rfl,
        by simp⟩
      have hnone : s.rpcs.filter (Rpc.probes s.probes.length) = [] :=
        List.filter_eq_nil_iff.mpr fun rpc hr hk =>
          absurd ((h.request rpc hr).lt_length hk) (Nat.lt_irrefl _)
      rw [List.filter_append, hnone, hprobes, if_pos rfl, List.nil_append, List.map_map]
      exact List.map_id _
  · rcases List.mem_append.mp hr with hr | hr
    · exact h.src rpc hr
    · obtain ⟨q, -, rfl⟩ := List.mem_map.mp hr
      exact hp
  · rcases List.mem_append.mp hr with hr | hr
    · exact (h.request rpc hr).grows hg
    · obtain ⟨q, -, rfl⟩ := List.mem_map.mp hr
      refine ⟨{ round := round, votesReceived := 0 }, ?_, rfl, hcand⟩
      show (s.probes ++ [_])[s.probes.length]? = _
      simp

/-- The task of a waiting RPC counts the probe it was granted. -/
theorem ProbeRel.countProbe (h : ProbeRel m s) {i k : Nat} {rpc : Rpc} {args : RequestVoteArgs}
    (hrpc : s.rpcs[i]? = some rpc) (hwait : rpc.waiting = true)
    (hreq : rpc.request = .preVote k args) {r : VoteResponseArgs}
    (hreply : (i, .preVote r) ∈ s.replies) (hgranted : r.voteGranted = true) :
    ProbeRel m (Cluster.countProbe k rpc.src
      { s with rpcs := s.rpcs.set i { rpc with waiting := false } }) := by
  have hmem := List.mem_of_getElem? hrpc
  obtain ⟨tally, hk, rfl, hcand⟩ : ∃ tally, s.probes[k]? = some tally ∧
      tally.round.args = args ∧ args.candidateId = rpc.src := by
    have := h.request rpc hmem
    rwa [hreq] at this
  have hprobe := h.probe hk
  have hprobes : rpc.probes k = true := by simp [Rpc.probes, hreq]
  have hlater := later_set hrpc
  have h₁ := h.later hlater
  obtain ⟨voters, hnodup, hcount, hvoters⟩ := hprobe.voters
  -- a peer is asked once in a round, and this task has not counted yet
  have hnew : rpc.dst ∉ voters := by
    intro hin
    obtain ⟨i₀, rpc₀, r₀, hrpc₀, hprobes₀, hdst₀, hwait₀, -⟩ := hvoters _ hin
    have hdsts : ((s.rpcs.filter (Rpc.probes k)).map Rpc.dst).Nodup := by
      rw [hprobe.dsts, hprobe.peers]
      exact (List.nodup_cons.mp (m.nodup_peers hprobe.member)).2
    have heq := List.inj_on_of_nodup_map hdsts
      (List.mem_filter.mpr ⟨List.mem_of_getElem? hrpc₀, hprobes₀⟩)
      (List.mem_filter.mpr ⟨hmem, hprobes⟩) hdst₀
    rw [heq, hwait] at hwait₀
    cases hwait₀
  have hset := getElem?_count hk
  have hg : PollsGrow s.probes
      (s.probes.set k { tally with votesReceived := tally.votesReceived + 1 }) :=
    pollsGrow_count hk
  have h₂ : ProbeRel m
      { s with
        rpcs := s.rpcs.set i { rpc with waiting := false }
        probes := s.probes.set k { tally with votesReceived := tally.votesReceived + 1 } } := by
    refine ⟨h₁.node, h₁.member, fun c hc => (h₁.call c hc).grows hg, fun {k' tally'} hk' => ?_,
      h₁.src, fun rpc' hr' => (h₁.request rpc' hr').grows hg⟩
    have hk' : (s.probes.set k { tally with votesReceived := tally.votesReceived + 1 })[k']? =
      some tally' := hk'
    by_cases heq : k' = k
    · subst heq
      obtain rfl := Option.some.inj (hset.symm.trans hk')
      have hprobe₁ := h₁.probe hk
      refine ⟨hprobe₁.member, hprobe₁.peers, hprobe₁.dsts, rpc.dst :: voters,
        List.nodup_cons.mpr ⟨hnew, hnodup⟩, by simp [hcount], fun q hq => ?_⟩
      rcases List.mem_cons.mp hq with rfl | hq
      · exact ⟨i, { rpc with waiting := false }, r,
          List.getElem?_set_self (List.getElem?_eq_some_iff.mp hrpc).1, hprobes, rfl, rfl, hreply,
          hgranted⟩
      · exact (hvoters q hq).later hlater
    · rw [List.getElem?_set_ne (Ne.symm heq)] at hk'
      exact h₁.probe hk'
  unfold Cluster.countProbe
  simp only [hk]
  split_ifs with hmaj
  · refine h₂.addCalls (h.src rpc hmem) fun c hc => ?_
    obtain rfl := List.mem_singleton.mp hc
    exact ⟨k, _, hset, hcand, hmaj⟩
  · exact h₂

theorem ProbeRel.countVote (h : ProbeRel m s) {p : String} (hp : p ∈ m.members) (k term : Nat) :
    ProbeRel m (Cluster.countVote k p term s) := by
  obtain ⟨polls, next, heq, -, hnext⟩ := Cluster.countVote_eq k p term s
  rw [heq]
  refine (h.setPolls polls).addCalls hp fun c hc => ?_
  rcases hnext with rfl | rfl
  · cases hc
  · obtain rfl := List.mem_singleton.mp hc
    trivial

/-- The events of the calls that wait are those of a fixed membership. -/
theorem Call.nodeEvent_isPlain {clock : Clock} {c : Call} {e : NodeEvent}
    (h : c.nodeEvent clock = some e) : e.IsPlain := by
  cases c <;> cases h <;> trivial

theorem Fixed.resume {p : String} {n : RaftNode} (h : Fixed m p n) (clock : Clock) (c : Call) :
    Fixed m p (c.resume clock n).node := by
  rcases c.resume_node clock n with ⟨-, heq⟩ | ⟨e, he, hstep⟩
  · rw [heq]
    exact h
  · exact h.step (Call.nodeEvent_isPlain he) hstep

/-- A call gets the lock. -/
theorem ProbeRel.resume (h : ProbeRel m s) {p : String} (hp : p ∈ m.members) {c : Call}
    (hc : ProbeCallOk m s.probes p c) (clock : Clock) :
    ProbeRel m (s.finish p (c.resume clock (s.nodes p))) := by
  have hnode := h.setNode ((h.node p).resume clock c)
  have hresumed := Cluster.resumed clock p s c
  generalize (c.resume clock (s.nodes p)).node = n' at hnode hresumed
  generalize s.finish p (c.resume clock (s.nodes p)) = t at hresumed ⊢
  cases hresumed with
  | node => exact hnode
  | polls hnext =>
    have hopen : ProbeRel m (s.openPoll p (s.nodes p).voteRound) := by
      refine (h.addRpcs (fun rpc hr => ?_) (fun rpc hr => ?_) fun rpc hr k => ?_).setPolls _
      all_goals obtain ⟨q, -, rfl⟩ := List.mem_map.mp hr
      · exact hp
      · trivial
      · rfl
    refine hopen.addCalls hp fun c hin => ?_
    obtain ⟨rfl, -⟩ := hnext c hin
    trivial
  | probes => exact hnode.openProbe hp hc.1 hc.2
  | alone halone =>
    refine hnode.addCalls hp fun c hin => ?_
    obtain rfl := List.mem_singleton.mp hin
    exact hc.1.symm.trans (VoteRound.peers_eq_nil halone)
  | promoted =>
    refine hnode.addCalls hp fun c hin => ?_
    obtain rfl := List.mem_singleton.mp hin
    trivial
  | syncs hnext =>
    refine h.addCalls hp fun c hin => ?_
    obtain rfl := List.mem_singleton.mp hin
    rcases hnext with rfl | rfl <;> trivial
  | @sends round peer rest args hsync =>
    have hsent : ProbeRel m (s.send p [(peer, args)]) := by
      refine h.addRpcs (fun rpc hr => ?_) (fun rpc hr => ?_) fun rpc hr k => ?_
      all_goals obtain rfl := List.mem_singleton.mp hr
      · exact hp
      · exact syncPeer_plain (h.node p).plain hsync
      · rfl
    refine hsent.addCalls hp fun c hin => ?_
    obtain rfl := List.mem_singleton.mp hin
    trivial

/-- The task of a waiting RPC processes a reply. -/
theorem ProbeRel.receive (h : ProbeRel m s) {i : Nat} {rpc : Rpc}
    (hrpc : s.rpcs[i]? = some rpc) (hwait : rpc.waiting = true) {reply : Reply}
    (hreply : (i, reply) ∈ s.replies) (clock : Clock) :
    ProbeRel m (Cluster.process clock rpc reply
      { s with rpcs := s.rpcs.set i { rpc with waiting := false } }) := by
  have hlater := h.later (later_set hrpc)
  have hcall : ∀ {e : NodeEvent} {n' : RaftNode}, (s.nodes rpc.src).step e = some n' →
      e.IsPlain → ProbeRel m (Cluster.setNode rpc.src n'
        { s with rpcs := s.rpcs.set i { rpc with waiting := false } }) := by
    intro e n' hstep hplain
    exact hlater.setNode ((h.node rpc.src).step hplain hstep)
  cases hreq : rpc.request with
  | requestVote k args =>
    cases reply with
    | vote r =>
      by_cases hgranted : r.voteGranted = true
      · have hcount := hlater.countVote (h.src rpc (List.mem_of_getElem? hrpc)) k args.term
        simpa [Cluster.process, hreq, hgranted] using hcount
      · have hset := hcall (e := .voteRefused args.term r) rfl trivial
        simpa [Cluster.process, hreq, hgranted] using hset
    | _ => simpa [Cluster.process, hreq] using hlater
  | preVote k args =>
    cases reply with
    | preVote r =>
      by_cases hlt : args.term < r.term
      · have hset := hcall (e := .preVoteStale) rfl trivial
        simpa [Cluster.process, hreq, hlt] using hset
      · by_cases hgranted : r.voteGranted = true
        · have hcount := h.countProbe hrpc hwait hreq hreply hgranted
          simpa [Cluster.process, hreq, hlt, hgranted] using hcount
        · simpa [Cluster.process, hreq, hlt, hgranted] using hlater
    | _ => simpa [Cluster.process, hreq] using hlater
  | appendEntries args =>
    cases reply with
    | append r =>
      have hset := hcall (e := .appendReply clock rpc.dst args r) rfl trivial
      simpa [Cluster.process, hreq] using hset
    | _ => simpa [Cluster.process, hreq] using hlater

end Parts

/-! ## Runs -/

theorem start_probeRel (m : Membership) : ProbeRel m (Cluster.start m) where
  node := fun _ => ⟨⟨rfl, rfl, rfl, nofun⟩, nofun⟩
  member := nofun
  call := nofun
  probe := nofun
  src := nofun
  request := nofun

theorem step_probeRel {m : Membership} {s s' : Cluster} {e : Event} (h : ProbeRel m s)
    (hstep : s.step m e = some s') : ProbeRel m s' := by
  cases e with
  | becomeCandidate p clock =>
    simp only [Cluster.step] at hstep
    split_ifs at hstep with hp
    obtain rfl := Option.some.inj hstep
    have hset := h.setNode ((h.node p).step (e := .becomeCandidate clock) trivial rfl)
    exact hset.addCalls hp fun c hc => by
      obtain rfl := List.mem_singleton.mp hc
      trivial
  | becomePreCandidate p =>
    simp only [Cluster.step] at hstep
    split_ifs at hstep with hp
    obtain rfl := Option.some.inj hstep
    exact h.addCalls hp fun c hc => by
      obtain rfl := List.mem_singleton.mp hc
      exact ⟨(h.node p).peers, (h.node p).nodeId⟩
  | propose p command =>
    simp only [Cluster.step] at hstep
    split_ifs at hstep with hp
    obtain rfl := Option.some.inj hstep
    exact h.setNode ((h.node p).step (e := .propose command) hp.2 rfl)
  | proposeBatch p commands =>
    simp only [Cluster.step] at hstep
    split_ifs at hstep with hp
    obtain rfl := Option.some.inj hstep
    exact h.setNode
      ((h.node p).step (e := .proposeBatch commands) (List.all_eq_true.mp hp.2) rfl)
  | proposeAbortTx p txId =>
    simp only [Cluster.step] at hstep
    split_ifs at hstep with hp
    obtain rfl := Option.some.inj hstep
    exact h.setNode ((h.node p).step (e := .proposeAbortTx txId) trivial rfl)
  | leaderCheck p =>
    simp only [Cluster.step] at hstep
    split_ifs at hstep with hp hlead
    · obtain rfl := Option.some.inj hstep
      exact h.addCalls hp fun c hc => by
        obtain rfl := List.mem_singleton.mp hc
        trivial
    · obtain rfl := Option.some.inj hstep
      exact h
  | resume k clock =>
    simp only [Cluster.step, Option.map_eq_some_iff] at hstep
    obtain ⟨c, hk, rfl⟩ := hstep
    have hmem := List.mem_of_getElem? hk
    have herase := h.fewerCalls fun c' hc' => List.mem_of_mem_eraseIdx (i := k) hc'
    exact herase.resume (h.member c hmem) (h.call c hmem) clock
  | deliver i clock =>
    simp only [Cluster.step, Option.map_eq_some_iff] at hstep
    obtain ⟨rpc, hrpc, rfl⟩ := hstep
    have hplain : (rpc.request.nodeEvent clock).IsPlain := by
      have hreq := h.request rpc (List.mem_of_getElem? hrpc)
      cases hr : rpc.request with
      | appendEntries args =>
        rw [hr] at hreq
        exact hreq
      | _ => trivial
    have hhandled : (s.nodes rpc.dst).step (rpc.request.nodeEvent clock) =
        some (rpc.request.handle clock (s.nodes rpc.dst)).2 := by
      cases rpc.request <;> rfl
    exact (h.setNode ((h.node rpc.dst).step hplain hhandled)).addReply _
  | receive j clock =>
    simp only [Cluster.step, Option.bind_eq_some_iff] at hstep
    obtain ⟨r, hj, rpc, hrpc, hstep⟩ := hstep
    split_ifs at hstep with hwait
    obtain rfl := Option.some.inj hstep
    exact h.receive hrpc hwait (List.mem_of_getElem? hj) clock
  | restart p clock =>
    simp only [Cluster.step] at hstep
    split_ifs at hstep
    obtain ⟨n, hn, rfl⟩ := Option.map_eq_some_iff.mp hstep
    have hdrop : ProbeRel m (s.dropTasks p) :=
      (h.later (later_dropTasks p s.rpcs)).fewerCalls fun c hc => List.mem_of_mem_filter hc
    exact hdrop.setNode ((h.node p).startup hn)

theorem run_probeRel {m : Membership} {es : List Event} {s : Cluster}
    (hrun : run (Cluster.step m) (Cluster.start m) es = some s) : ProbeRel m s :=
  run_invariant (P := fun _ _ => True) (fun h _ hstep => step_probeRel h hstep) (start_probeRel m)
    (along_of_forall (by simp) es _) hrun

end OxideKv
