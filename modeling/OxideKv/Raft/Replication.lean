import OxideKv.Lib.Chosen
import OxideKv.Raft.ElectionSafety
import OxideKv.Raft.Merge

/-!
# The nodes refine the replicated log

`NodeLog` relates a node to the state of the abstract protocol: its term and
log are those of the protocol, a leader has a reign of its own, and what it
takes for replicated is confirmed there, up to a slack.  The slack is a
function of the node, so that one proof covers two conditions on the indices
that are left from an earlier leadership: none at all, or none above the
entries of earlier terms (`inherited`).  What a peer in the leader's term has
of the leader's log counts as confirmed.

Each lemma below takes one kind of change of a node to steps of the
protocol.
-/

namespace OxideKv

open Quorum ReplicatedLog RaftNode Run

/-- The state of the protocol behind a cluster. -/
abbrev Past := ReplicatedLog.State String LogEntry

namespace RaftNode

/-- How much of its log a leader has from earlier terms. -/
def inherited (n : RaftNode) : Nat :=
  (n.log.takeWhile fun e => decide (e.term < n.currentTerm)).length

/-- A bound on what the node has on record for its peers from before it was
elected. -/
structure IsSlack (f : RaftNode → Nat) : Prop where
  le_inherited : ∀ n, f n ≤ n.inherited
  mono : ∀ {n n' : RaftNode}, n'.currentTerm = n.currentTerm → n.log <+: n'.log → f n ≤ f n'

theorem inherited_isSlack : IsSlack inherited where
  le_inherited := fun _ => le_rfl
  mono := by
    intro n n' hterm hlog
    obtain ⟨rest, hrest⟩ := hlog
    unfold inherited
    rw [← hrest, hterm, List.takeWhile_append]
    split_ifs with hall
    · rw [List.length_append]
      omega
    · exact le_rfl

theorem zero_isSlack : IsSlack fun _ => 0 where
  le_inherited := fun _ => Nat.zero_le _
  mono := fun _ _ => le_rfl

theorem inherited_le_length (n : RaftNode) : n.inherited ≤ n.log.length :=
  (List.takeWhile_prefix _).length_le

/-- Leading entries of earlier terms are inherited. -/
theorem length_le_inherited {n : RaftNode} {l : List LogEntry} (hl : l <+: n.log)
    (hterm : ∀ e ∈ l, e.term < n.currentTerm) : l.length ≤ n.inherited := by
  obtain ⟨rest, hrest⟩ := hl
  unfold inherited
  rw [← hrest, List.takeWhile_append_of_pos fun e he => decide_eq_true (hterm e he),
    List.length_append]
  omega

/-- An entry of the present term is not inherited. -/
theorem inherited_le_of_term {n : RaftNode} {i : Nat} {e : LogEntry} (he : n.log[i]? = some e)
    (hterm : e.term = n.currentTerm) : n.inherited ≤ i := by
  by_contra hlt
  have hlt : i < (n.log.takeWhile fun e => decide (e.term < n.currentTerm)).length :=
    Nat.lt_of_not_le hlt
  obtain ⟨rest, hrest⟩ := List.takeWhile_prefix (l := n.log)
    (fun e => decide (e.term < n.currentTerm))
  have hin : (n.log.takeWhile fun e => decide (e.term < n.currentTerm))[i]? = some e := by
    rw [← hrest, List.getElem?_append_left hlt] at he
    exact he
  have hdec := List.all_eq_true.mp List.all_takeWhile e (List.mem_of_getElem? hin)
  simp at hdec
  omega

/-- The next entry for `peer` is one of the log, or the one behind it. -/
def NextInLog (n : RaftNode) (peer : String) : Prop :=
  1 ≤ (n.nextIndex peer).getD 1 ∧ (n.nextIndex peer).getD 1 ≤ n.log.length + 1

end RaftNode

/-! ## The relation of a node -/

section Nodes

variable (f : RaftNode → Nat) (m : Membership)

structure NodeLog (a : Past) (p : String) (n : RaftNode) : Prop where
  term : a.term p = n.currentTerm
  log : a.log p = n.log
  leads : n.state = .leader → ∃ r, a.reign n.currentTerm = some r ∧ r.leader = p
  /-- What a leader takes for replicated is confirmed. -/
  matched : n.state = .leader → ∀ q ∈ m.peers p,
    n.matchIndexFor q ≤ f n ∨ n.matchIndexFor q ≤ a.ack q n.currentTerm
  next : n.state = .leader → ∀ q, n.NextInLog q
  candidate : n.state = .candidate → ∀ r, a.reign n.currentTerm = some r → r.leader ≠ p
  commit : n.commitIndex ≤ n.log.length
  committed : Committed (majority m.members) LogEntry.term a n.currentTerm
    (n.log.take n.commitIndex)

/-- Every log of the protocol is numbered. -/
def AllNumbered (a : Past) : Prop := ∀ T r, a.reign T = some r → Numbered r.log

/-- A call of `p` that leaves the node `n'` is matched by steps of the
protocol. -/
structure Matched (a : Past) (p : String) (n' : RaftNode) (a' : Past) : Prop where
  steps : Steps (majority m.members) LogEntry.term p a a'
  ballot : a'.ballot = observe a.ballot p n'
  numbered : AllNumbered a'
  node : NodeLog f m a' p n'

end Nodes

section Lemmas

variable {f : RaftNode → Nat} {m : Membership} {a a' : Past} {p : String} {n n' : RaftNode}

/-- The logs of the protocol are numbered because those of the leaders are. -/
theorem AllNumbered.of_wellFormed (h : AllNumbered a) {B : Nat} {l : List LogEntry}
    (hl : WellFormed LogEntry.term a B l) : Numbered l := by
  intro i e he
  obtain ⟨r, hr, hp⟩ := hl.traced i e he
  have hi := (List.getElem?_eq_some_iff.mp he).1
  refine h _ r hr i e ?_
  obtain ⟨rest, hrest⟩ := hp
  rw [← hrest, List.getElem?_append_left (by rw [List.length_take]; omega),
    List.getElem?_take_of_lt (Nat.lt_succ_self i)]
  exact he

/-- What one node does leaves the others alone. -/
theorem NodeLog.other (h : NodeLog f m a p n) {q : String} (hq : p ≠ q) (hg : Grows a a')
    (hl : Local q a a') : NodeLog f m a' p n := by
  refine ⟨(hl.term hq).trans h.term, (hl.log hq).trans h.log, fun hs => ?_, fun hs v hv => ?_,
    h.next, fun hs r' hr' => ?_, h.commit, h.committed.grows hg le_rfl⟩
  · obtain ⟨r, hr, hlead⟩ := h.leads hs
    obtain ⟨r', hr', hlead', -, -⟩ := hg.reign hr
    exact ⟨r', hr', hlead'.trans hlead⟩
  · rcases h.matched hs v hv with hle | hle
    · exact Or.inl hle
    · exact Or.inr (hle.trans (hg.ack v _))
  · rcases hl.reign hr' with ⟨r, hr, hlead⟩ | hlead
    · rw [hlead]
      exact h.candidate hs r hr
    · rw [hlead]
      exact Ne.symm hq

/-- The node takes neither role and keeps its log. -/
theorem NodeLog.of_passive (h : NodeLog f m a p n) (hg : Grows a a')
    (hterm : a'.term p = n'.currentTerm) (hle : n.currentTerm ≤ n'.currentTerm)
    (hlog : a'.log p = a.log p) (hsame : n'.log = n.log)
    (hcommit : n'.commitIndex ≤ n.commitIndex)
    (hc : n'.state ≠ .candidate) (hl : n'.state ≠ .leader) : NodeLog f m a' p n' := by
  refine ⟨hterm, by rw [hlog, h.log, hsame], fun hs => absurd hs hl, fun hs => absurd hs hl,
    fun hs => absurd hs hl, fun hs => absurd hs hc, ?_, ?_⟩
  · rw [hsame]
    exact hcommit.trans h.commit
  · rw [hsame]
    exact (h.committed.grows hg hle).of_isPrefix (List.take_prefix_take_left hcommit)

/-- Nothing that matters changes. -/
theorem NodeLog.of_same (h : NodeLog f m a p n) (hf : IsSlack f) (hg : Grows a a')
    (hreign : a'.reign = a.reign) (ht : a'.term p = a.term p) (hl : a'.log p = a.log p)
    (hterm : n'.currentTerm = n.currentTerm) (hlog : n'.log = n.log)
    (hstate : n'.state = n.state) (hmatch : n'.matchIndex = n.matchIndex)
    (hnext : n'.nextIndex = n.nextIndex) (hcommit : n'.commitIndex = n.commitIndex) :
    NodeLog f m a' p n' := by
  have hslack : f n ≤ f n' := hf.mono hterm (by rw [hlog])
  have hfor : ∀ q, n'.matchIndexFor q = n.matchIndexFor q := by
    intro q
    unfold matchIndexFor
    rw [hmatch]
  refine ⟨by rw [ht, h.term, hterm], by rw [hl, h.log, hlog], ?_, ?_, ?_, ?_, ?_, ?_⟩
  · rw [hstate, hreign, hterm]
    exact h.leads
  · rw [hstate, hterm]
    intro hs q hq
    rw [hfor]
    rcases h.matched hs q hq with hle | hle
    · exact Or.inl (hle.trans hslack)
    · exact Or.inr (hle.trans (hg.ack q _))
  · rw [hstate]
    unfold NextInLog
    rw [hnext, hlog]
    exact h.next
  · rw [hstate, hreign, hterm]
    exact h.candidate
  · rw [hcommit, hlog]
    exact h.commit
  · rw [hcommit, hlog, hterm]
    exact h.committed.grows hg le_rfl

/-! ## Terms and votes -/

/-- The protocol after a call that leaves the node `n'`, when it has to do
with the term and the vote only. -/
def observed (a : Past) (p : String) (n' : RaftNode) : Past :=
  { a with
    term := Function.update a.term p n'.currentTerm
    ballot := observe a.ballot p n' }

theorem observed_steps (hterm : a.term p ≤ n'.currentTerm) (hlog : a.log p = n'.log) :
    Steps (majority m.members) LogEntry.term p a (observed a p n') := by
  refine (advance_steps hterm).trans ?_
  have hself : (Function.update a.term p n'.currentTerm) p = n'.currentTerm :=
    Function.update_self _ _ _
  unfold observed observe
  cases hb : a.ballot p n'.currentTerm with
  | some x =>
    rw [Option.some_or, ← hb, put_self]
  | none =>
    cases n'.voteFor with
    | none =>
      rw [Option.none_or, Option.map_none, ← hb, put_self]
    | some c =>
      rw [Option.none_or, Option.map_some, ← hlog]
      have hvote : Step (majority m.members) LogEntry.term p
          { a with term := Function.update a.term p n'.currentTerm } _ :=
        Step.vote p c (by dsimp only; rw [hself]; exact hb)
      dsimp only at hvote
      rw [hself] at hvote
      exact Relation.ReflTransGen.single hvote

/-- A call that has to do with the term and the vote only. -/
theorem matched_of_log_eq (hinv : Inv (majority m.members) LogEntry.term a)
    (hnum : AllNumbered a) (h : NodeLog f m a p n) (hle : n.currentTerm ≤ n'.currentTerm)
    (hlog : n'.log = n.log)
    (hnode : Grows a (observed a p n') → NodeLog f m (observed a p n') p n') :
    Matched f m a p n' (observed a p n') := by
  have hsteps : Steps (majority m.members) LogEntry.term p a (observed a p n') :=
    observed_steps (h.term ▸ hle) (by rw [h.log, hlog])
  exact ⟨hsteps, rfl, hnum, hnode (steps_inv hinv hsteps).2.1⟩

/-- The node takes neither role. -/
theorem matched_passive (hinv : Inv (majority m.members) LogEntry.term a)
    (hnum : AllNumbered a) (h : NodeLog f m a p n) (hle : n.currentTerm ≤ n'.currentTerm)
    (hlog : n'.log = n.log) (hcommit : n'.commitIndex ≤ n.commitIndex)
    (hc : n'.state ≠ .candidate) (hl : n'.state ≠ .leader) : Matched f m a p n' (observed a p n') :=
  matched_of_log_eq hinv hnum h hle hlog fun hg =>
    h.of_passive hg (Function.update_self _ _ _) hle rfl hlog hcommit hc hl

/-- Nothing but the vote changes. -/
theorem matched_same (hf : IsSlack f) (hinv : Inv (majority m.members) LogEntry.term a)
    (hnum : AllNumbered a) (h : NodeLog f m a p n) (hterm : n'.currentTerm = n.currentTerm)
    (hlog : n'.log = n.log) (hstate : n'.state = n.state)
    (hmatch : n'.matchIndex = n.matchIndex) (hnext : n'.nextIndex = n.nextIndex)
    (hcommit : n'.commitIndex = n.commitIndex) : Matched f m a p n' (observed a p n') := by
  refine matched_of_log_eq hinv hnum h hterm.ge hlog fun hg => ?_
  refine h.of_same hf hg rfl ?_ rfl hterm hlog hstate hmatch hnext hcommit
  show Function.update a.term p n'.currentTerm p = a.term p
  rw [Function.update_self, hterm, h.term]

/-- The node is promoted. -/
theorem matched_promote (hinv : Inv (majority m.members) LogEntry.term a)
    (hnum : AllNumbered a) (h : NodeLog f m a p n) (clock : Clock)
    (hterm : n.currentTerm + 1 ≠ 2 ^ 64) :
    Matched f m a p (promoteToCandidate clock n) (observed a p (promoteToCandidate clock n)) := by
  obtain ⟨storage, -, -, -, heq⟩ := promoteToCandidate_eq clock n
  have hsucc : u64Succ n.currentTerm = n.currentTerm + 1 := if_neg hterm
  rw [heq]
  refine matched_of_log_eq hinv hnum h (by dsimp only; omega) rfl fun hg => ?_
  refine ⟨Function.update_self _ _ _, h.log, nofun, nofun, nofun, fun _ r hr hlead => ?_,
    h.commit, h.committed.grows hg (by dsimp only; omega)⟩
  -- `p` cannot have led a term that it has only now entered
  have hle : u64Succ n.currentTerm ≤ a.term r.leader := hinv.leader_term hr
  rw [hlead, h.term] at hle
  omega

/-- A node is asked for its vote. -/
theorem matched_requestVote (hf : IsSlack f) (hinv : Inv (majority m.members) LogEntry.term a)
    (hnum : AllNumbered a) (h : NodeLog f m a p n) (clock : Clock) (args : RequestVoteArgs) :
    ∃ a', Matched f m a p (handleRequestVote clock args n).2 a' := by
  rcases handleRequestVote_cases clock args n with
    ⟨_, heq⟩ | ⟨hle, ⟨_, _, storage, -, -, -, heq⟩ | heq⟩ <;> rw [heq]
  · exact ⟨_, matched_same hf hinv hnum h rfl rfl rfl rfl rfl rfl⟩
  · by_cases hlt : n.currentTerm < args.term
    · refine ⟨_, matched_passive hinv hnum h hle rfl le_rfl ?_ ?_⟩ <;> simp [hlt]
    · refine ⟨_, matched_same hf hinv hnum h ?_ rfl ?_ rfl rfl rfl⟩
      · dsimp only
        omega
      · exact if_neg hlt
  · unfold adoptNewer
    split_ifs
    · obtain ⟨storage, -, -, -, hdown⟩ := stepDown_eq args.term n
      rw [hdown]
      exact ⟨_, matched_passive hinv hnum h hle rfl le_rfl nofun nofun⟩
    · exact ⟨_, matched_same hf hinv hnum h rfl rfl rfl rfl rfl rfl⟩

/-! ## Elections -/

theorem lastLogInfo_of_numbered {l : List LogEntry} (h : Numbered l) :
    lastLogInfo l = (l.length, lastTerm LogEntry.term l) := by
  unfold lastLogInfo lastTerm
  cases hlast : l.getLast? with
  | none =>
    rw [List.getLast?_eq_none_iff.mp hlast]
    rfl
  | some e =>
    have hpos : 0 < l.length := by
      cases l with
      | nil => cases hlast
      | cons => simp
    rw [List.getLast?_eq_getElem?] at hlast
    have hindex := h _ e hlast
    dsimp only [Option.map_some, Option.getD_some]
    rw [hindex, Nat.sub_add_cancel hpos]

/-- The comparison of `handle_request_vote` is that of the protocol. -/
theorem upToDate_of_infoCovers {l l' : List LogEntry} (hl : Numbered l) (hl' : Numbered l')
    (h : InfoCovers (lastLogInfo l) l') : UpToDate LogEntry.term l l' := by
  unfold InfoCovers at h
  rw [lastLogInfo_of_numbered hl, lastLogInfo_of_numbered hl'] at h
  rcases h with hlt | ⟨heq, hle⟩
  · exact Or.inl hlt
  · exact Or.inr ⟨heq.symm, hle⟩

/-- The node is elected. -/
theorem matched_elect (hinv : Inv (majority m.members) LogEntry.term a) (hnum : AllNumbered a)
    (h : NodeLog f m a p n) (hle : n.currentTerm ≤ n'.currentTerm) (hlog : n'.log = n.log)
    (hcommit : n'.commitIndex = n.commitIndex)
    (hnew : ∀ r, a.reign n'.currentTerm = some r → r.leader ≠ p)
    (hvotes : (majority m.members).IsQuorum { q | ∃ l,
      observe a.ballot p n' q n'.currentTerm = some (p, l) ∧ UpToDate LogEntry.term n'.log l })
    (hmatch : ∀ q ∈ m.peers p, n'.matchIndexFor q ≤ f n' ∨
      KeepsUp a n'.currentTerm n'.log q (n'.matchIndexFor q))
    (hnext : ∀ q, n'.NextInLog q)
    (hs : n'.state = .leader) : ∃ a', Matched f m a p n' a' := by
  have hsteps : Steps (majority m.members) LogEntry.term p a (observed a p n') :=
    observed_steps (h.term ▸ hle) (by rw [h.log, hlog])
  have hterm : (observed a p n').term p = n'.currentTerm := Function.update_self _ _ _
  have hlog' : (observed a p n').log p = n'.log := h.log.trans hlog.symm
  have hinv₁ := (steps_inv hinv hsteps).1
  -- who leads the term already has the votes of a majority too
  have hnone : (observed a p n').reign ((observed a p n').term p) = none := by
    rw [hterm]
    cases hr : a.reign n'.currentTerm with
    | none => exact hr
    | some r =>
      have hlead := leader_unique hinv₁ (hr : (observed a p n').reign n'.currentTerm = some r)
        hvotes fun q hq => hq.imp fun l hl => hl.1
      exact absurd hlead (hnew r hr)
  have helect := Step.elect p _ hnone hvotes fun q hq => by
    rw [hterm, hlog']
    exact hq
  have hall := hsteps.tail helect
  obtain ⟨hinv₂, hg, -⟩ := steps_inv hinv hall
  rw [hterm, hlog'] at hall hinv₂ hg
  -- who already has a part of the log is credited with it
  obtain ⟨a', hcredit, hterm'', hlog'', hballot, hreign, hack⟩ := credit_steps n'.matchIndexFor
    (m.peers p) (n := p) (T := n'.currentTerm) hinv₂ (Function.update_self _ _ _)
  have hg' := hg.trans (steps_inv hinv₂ hcredit).2.1
  refine ⟨a', hall.trans hcredit, hballot, fun T r hr => ?_, ?_⟩
  · rw [hreign] at hr
    by_cases hT : T = n'.currentTerm
    · subst hT
      obtain rfl : ({ leader := p, base := n'.log, log := n'.log } : Reign String LogEntry) =
          r := by
        simpa using hr
      show Numbered n'.log
      rw [hlog, ← h.log]
      exact hnum.of_wellFormed (hinv.log_wf p)
    · have hr : a.reign T = some r := by simpa [hT, observed] using hr
      exact hnum T r hr
  · refine ⟨(congrFun hterm'' p).trans hterm, (congrFun hlog'' p).trans hlog',
      fun _ => ⟨_, (congrFun hreign _).trans (Function.update_self _ _ _), rfl⟩, fun _ q hq => ?_,
      fun _ => hnext, fun hc => ?_, ?_, ?_⟩
    · refine (hmatch q hq).imp_right fun ⟨ht, hlen, hl⟩ => hack q hq ⟨?_, hlen, hl⟩
      show Function.update a.term p n'.currentTerm q = n'.currentTerm
      by_cases hqp : q = p
      · rw [hqp, Function.update_self]
      · rw [Function.update_of_ne hqp]
        exact ht
    · rw [hs] at hc
      cases hc
    · rw [hcommit, hlog]
      exact h.commit
    · have hcommitted := h.committed.grows hg' hle
      rwa [← hlog, ← hcommit] at hcommitted

/-! ## Proposals -/

/-- A call that casts no vote leaves the records as they are. -/
theorem observe_of_castsNoVote {b : Ballots} (h : NodeVotes m b p n) (hno : CastsNoVote n n') :
    observe b p n' = b := by
  unfold observe
  cases hv : n'.voteFor with
  | none => rw [Option.map_none, Option.or_none, put_self]
  | some c =>
    obtain ⟨hterm, hc⟩ := hno c hv
    have hvote := h.vote
    rw [hc] at hvote
    obtain ⟨x, hx, -⟩ := Option.map_eq_some_iff.mp hvote.symm
    rw [hterm, hx, Option.some_or, ← hx, put_self]

/-- A leader appends to its log. -/
theorem matched_appends (hf : IsSlack f) (hinv : Inv (majority m.members) LogEntry.term a)
    (hnum : AllNumbered a) (h : NodeLog f m a p n) (hvotes : NodeVotes m a.ballot p n)
    {P : Command → Prop} (happ : Appends P n n') : ∃ a', Matched f m a p n' a' := by
  obtain ⟨storage, entries, rfl, hentries, hidle, -⟩ := happ
  by_cases hs : n.state = .leader
  · obtain ⟨r, hr, rfl⟩ := h.leads hs
    have hr' : a.reign (a.term r.leader) = some r := h.term ▸ hr
    have hrlog : r.log = n.log := (hinv.leader_log hr h.term).symm.trans h.log
    have hterms : ∀ e ∈ entries, e.term = a.term r.leader := by
      intro e he
      obtain ⟨i, hi⟩ := List.getElem?_of_mem he
      rw [h.term]
      exact (hentries i e hi).2
    obtain ⟨a', hsteps, hterm', hballot, hlog', hreign⟩ :=
      append_steps (S := majority m.members) entries hr' hterms
    obtain ⟨-, hg, -⟩ := steps_inv hinv hsteps
    rw [h.term] at hreign
    have hcast : CastsNoVote n { n with storage := storage, log := n.log ++ entries } :=
      .of_eq rfl rfl
    refine ⟨a', hsteps, ?_, fun T r' hr'' => ?_, ?_⟩
    · rw [hballot, observe_of_castsNoVote hvotes hcast]
    · by_cases hT : T = n.currentTerm
      · subst hT
        rw [hreign, Function.update_self] at hr''
        obtain rfl := Option.some.inj hr''
        intro i e he
        dsimp only at he
        rcases Nat.lt_or_ge i r.log.length with hi | hi
        · rw [List.getElem?_append_left hi] at he
          exact hnum _ r hr i e he
        · rw [List.getElem?_append_right hi] at he
          have hindex := (hentries _ e he).1
          rw [← hrlog] at hindex
          omega
      · rw [hreign, Function.update_of_ne hT] at hr''
        exact hnum T r' hr''
    · refine ⟨by rw [hterm', h.term], by rw [hlog', h.log], fun _ => ?_, fun _ q hq => ?_,
        fun _ q => ?_, fun hc => ?_, ?_, ?_⟩
      · exact ⟨{ r with log := r.log ++ entries }, by rw [hreign, Function.update_self], rfl⟩
      · rcases h.matched hs q hq with hle | hle
        · have hslack : f n ≤ f { n with storage := storage, log := n.log ++ entries } :=
            hf.mono rfl (List.prefix_append _ _)
          exact Or.inl (hle.trans hslack)
        · exact Or.inr (hle.trans (hg.ack q _))
      · obtain ⟨hpos, hnext⟩ := h.next hs q
        unfold NextInLog
        dsimp only
        rw [List.length_append]
        omega
      · rw [show n.state = .candidate from hc] at hs
        cases hs
      · have hcommit := h.commit
        dsimp only
        rw [List.length_append]
        omega
      · have hcommitted := h.committed.grows hg le_rfl
        have htake : (n.log ++ entries).take n.commitIndex = n.log.take n.commitIndex :=
          List.take_append_of_le_length h.commit
        rwa [← htake] at hcommitted
  · obtain rfl := hidle hs
    rw [List.append_nil]
    exact ⟨_, matched_same hf hinv hnum h rfl rfl rfl rfl rfl rfl⟩

/-! ## The commit rule -/

/-- What a majority holds according to the leader is chosen. -/
theorem committed_of_quorum (hf : IsSlack f) (hinv : Inv (majority m.members) LogEntry.term a)
    (h : NodeLog f m a p n) (hstatic : Static m p n) (hp : p ∈ m.members)
    (hs : n.state = .leader) {c : Nat} (hpos : 0 < c) (hc : c ≤ n.log.length)
    (hquorum : configQuorumReached n.currentConfig n.matchIndex n.nodeId n.log.length c = true)
    (hterm : ((n.log[c - 1]?).map LogEntry.term).getD 0 = n.currentTerm) :
    Committed (majority m.members) LogEntry.term a n.currentTerm (n.log.take c) := by
  obtain ⟨r, hr, hlead⟩ := h.leads hs
  have hrlog : r.log = n.log := by
    rw [← hinv.leader_log hr (by rw [hlead, h.term]), hlead, h.log]
  obtain ⟨e, he⟩ : ∃ e, n.log[c - 1]? = some e :=
    ⟨n.log[c - 1], List.getElem?_eq_getElem (by omega)⟩
  rw [he] at hterm
  have hfresh := inherited_le_of_term he hterm
  refine Or.inr ⟨n.currentTerm, c, r, le_rfl, ⟨hr, ⟨e, by rw [hrlog, he], hterm⟩, hpos, ?_⟩,
    hrlog ▸ List.prefix_rfl⟩
  -- the count of `config_quorum_reached` is one over the members
  rw [hstatic.config, hstatic.nodeId, ← List.map_cons] at hquorum
  have hcount := of_decide_eq_true hquorum
  rw [List.length_map, List.countP_map, (m.perm p hp).countP_eq, (m.perm p hp).length_eq] at hcount
  refine majority_of_countP hcount fun q hq hcounted => ?_
  show c ≤ a.ack q n.currentTerm
  have hcounted : c ≤ replicatedIndex n.matchIndex p n.log.length (serverAt q) :=
    of_decide_eq_true hcounted
  unfold replicatedIndex serverAt at hcounted
  dsimp only at hcounted
  by_cases hself : q = p
  · rw [hself, ← hlead, hinv.ack_leader hr, hrlog]
    exact hc
  · rw [if_neg hself] at hcounted
    have hpeer : q ∈ m.peers p :=
      (List.mem_cons.mp ((m.perm p hp).mem_iff.mpr hq)).resolve_left hself
    have hmatch : c ≤ n.matchIndexFor q := hcounted
    rcases h.matched hs q hpeer with hle | hle
    · have hslack := hf.le_inherited n
      omega
    · omega

/-- The leader commits. -/
theorem NodeLog.maybeCommit (hf : IsSlack f) (hinv : Inv (majority m.members) LogEntry.term a)
    (h : NodeLog f m a p n) (hstatic : Static m p n) (hp : p ∈ m.members) (clock : Clock) :
    NodeLog f m a p (n.maybeCommit clock) := by
  rcases maybeCommit_plain clock hstatic.plain with
    heq | ⟨c, sm, hs, hlt, hle, hquorum, hterm, heq⟩ <;> rw [heq]
  · exact h
  · have hcommitted := committed_of_quorum hf hinv h hstatic hp hs (by omega) hle hquorum hterm
    have hslack : f n ≤ f { n with
        commitIndex := c, stateMachine := sm, lastApplied := max n.lastApplied c } :=
      hf.mono rfl List.prefix_rfl
    refine ⟨h.term, h.log, h.leads, fun hs q hq => ?_, h.next, h.candidate, hle, hcommitted⟩
    exact (h.matched hs q hq).imp_left fun hle => hle.trans hslack

/-! ## `AppendEntries` -/

/-- The request is a part of the log of the leader of its term. -/
structure AppendOk (m : Membership) (a : Past) (args : AppendEntriesArgs)
    (r : Reign String LogEntry) : Prop where
  reign : a.reign args.term = some r
  le_length : args.prevLogIndex + args.entries.length ≤ r.log.length
  entries : args.entries = (r.log.drop args.prevLogIndex).take args.entries.length
  prev : args.prevLogIndex = 0 ∨
    ∃ e, r.log[args.prevLogIndex - 1]? = some e ∧ e.term = args.prevLogTerm
  commit : args.leaderCommit ≤ args.prevLogIndex + args.entries.length
  committed : Committed (majority m.members) LogEntry.term a args.term
    (r.log.take args.leaderCommit)

theorem AppendOk.grows {args : AppendEntriesArgs} {r : Reign String LogEntry}
    (h : AppendOk m a args r) (hg : Grows a a') : ∃ r', AppendOk m a' args r' := by
  obtain ⟨r', hr', -, -, hlog⟩ := hg.reign h.reign
  have hle := h.le_length
  have hcommit := h.commit
  refine ⟨r', hr', hle.trans hlog.length_le, ?_, ?_, hcommit, ?_⟩
  · have htake := take_of_isPrefix hlog hle
    have hentries := h.entries
    rw [List.take_drop] at hentries ⊢
    rw [htake]
    exact hentries
  · refine h.prev.imp_right fun ⟨e, he, hterm⟩ => ⟨e, ?_, hterm⟩
    obtain ⟨rest, hrest⟩ := hlog
    rw [← hrest, List.getElem?_append_left (List.getElem?_eq_some_iff.mp he).1]
    exact he
  · rw [take_of_isPrefix hlog (by omega)]
    exact h.committed.grows hg le_rfl

theorem AppendOk.getElem?_entries {args : AppendEntriesArgs}
    {r : Reign String LogEntry} (h : AppendOk m a args r) {i : Nat}
    (hi : i < args.entries.length) : args.entries[i]? = r.log[args.prevLogIndex + i]? := by
  rw [h.entries, List.getElem?_take_of_lt hi, List.getElem?_drop]

theorem AppendOk.numberedAfter {args : AppendEntriesArgs}
    {r : Reign String LogEntry} (h : AppendOk m a args r) (hnum : AllNumbered a) :
    NumberedAfter args.prevLogIndex args.entries := by
  intro i e he
  have hi := (List.getElem?_eq_some_iff.mp he).1
  rw [h.getElem?_entries hi] at he
  exact hnum _ r h.reign _ e he

/-- A node whose log passes the check agrees with the leader up to there. -/
theorem AppendOk.take_prev {args : AppendEntriesArgs} {r : Reign String LogEntry}
    (h : AppendOk m a args r) (hinv : Inv (majority m.members) LogEntry.term a)
    {B : Nat} (hwf : WellFormed LogEntry.term a B n.log) (hprev : prevLogMatches args n = true) :
    n.log.take args.prevLogIndex = r.log.take args.prevLogIndex := by
  rcases prevLogMatches_spec hprev with h0 | ⟨hpos, -, e, he, hterm⟩
  · rw [h0, List.take_zero, List.take_zero]
  · rcases h.prev with h0 | ⟨e', he', hterm'⟩
    · omega
    · have htake := hwf.take_eq (hinv.reign_wf h.reign) he he' (hterm.trans hterm'.symm)
      rwa [Nat.sub_add_cancel hpos] at htake

/-- The loop of `handle_append_entries` takes over the log of the leader. -/
theorem AppendOk.adopts {args : AppendEntriesArgs} {r : Reign String LogEntry}
    (h : AppendOk m a args r) (hinv : Inv (majority m.members) LogEntry.term a)
    (hnum : AllNumbered a) {B : Nat} (hwf : WellFormed LogEntry.term a B n.log)
    (hprev : prevLogMatches args n = true) :
    Adopts (r.log.take (args.prevLogIndex + args.entries.length)) n.log
      (args.entries.foldl mergeLog n.log) := by
  have hnumbered := h.numberedAfter hnum
  have hle := h.le_length
  obtain ⟨k, hcut⟩ := foldl_mergeLog_cut args.entries hnumbered (prevLogMatches_le hprev)
  have hk := hcut.le_entries
  have hlen := hcut.le_length
  -- the entries that stay are those of the leader
  have hkept : n.log.take (args.prevLogIndex + k) = r.log.take (args.prevLogIndex + k) := by
    rcases Nat.eq_zero_or_pos k with rfl | hpos
    · exact h.take_prev hinv hwf hprev
    · have hi : args.prevLogIndex + (k - 1) < n.log.length := by omega
      have hi' : args.prevLogIndex + (k - 1) < r.log.length := by omega
      have hagree := hcut.agree (k - 1) (by omega)
      rw [h.getElem?_entries (by omega), List.getElem?_eq_getElem hi,
        List.getElem?_eq_getElem hi'] at hagree
      have htake := hwf.take_eq (hinv.reign_wf h.reign) (List.getElem?_eq_getElem hi)
        (List.getElem?_eq_getElem hi') (Option.some.inj hagree)
      rwa [show args.prevLogIndex + (k - 1) + 1 = args.prevLogIndex + k by omega] at htake
  rcases hcut.cut with ⟨rfl, hfold, -⟩ | ⟨hlt, hfold, hend⟩
  · rw [hfold, ← hkept]
    exact .keep (List.take_prefix _ _)
  · have hnew : args.entries.foldl mergeLog n.log =
        r.log.take (args.prevLogIndex + args.entries.length) := by
      have hrest : args.entries.drop k =
          (r.log.drop (args.prevLogIndex + k)).take (args.entries.length - k) := by
        conv_lhs => rw [h.entries]
        rw [List.drop_take, List.drop_drop]
      rw [hfold, hkept, hrest, ← List.take_add,
        show args.prevLogIndex + k + (args.entries.length - k) =
          args.prevLogIndex + args.entries.length by omega]
    rw [hnew]
    refine .take fun hin => ?_
    rcases hend with ⟨hend, -⟩ | ⟨-, hconf⟩
    · have hle' := hin.length_le
      rw [List.length_take] at hle'
      omega
    · have hagree : conflictsWith n.log args.entries = false := by
        refine conflictsWith_of_agree args.entries hnumbered fun i e he => ?_
        have hi := (List.getElem?_eq_some_iff.mp he).1
        obtain ⟨rest, hrest⟩ := hin
        rw [h.getElem?_entries hi] at he
        rw [← hrest, List.getElem?_append_left (by rw [List.length_take]; omega),
          List.getElem?_take_of_lt (by omega), he]
        rfl
      rw [hconf] at hagree
      cases hagree

/-- A node takes over what the request holds.  The leader of the term itself has
all of it. -/
theorem AppendOk.accepted {args : AppendEntriesArgs} {r : Reign String LogEntry}
    (h : AppendOk m a args r) (hinv : Inv (majority m.members) LogEntry.term a)
    (hle : a.term p ≤ args.term) {l : List LogEntry}
    (hl : Adopts (r.log.take (args.prevLogIndex + args.entries.length)) (a.log p) l) :
    ∃ a', Steps (majority m.members) LogEntry.term p a a' ∧ a'.ballot = a.ballot ∧
      a'.reign = a.reign ∧ a'.term p = args.term ∧ a'.log p = l ∧
      args.prevLogIndex + args.entries.length ≤ a'.ack p args.term := by
  by_cases hp : r.leader = p
  · subst hp
    have hterm : a.term r.leader = args.term := le_antisymm hle (hinv.leader_term h.reign)
    have hlog : a.log r.leader = r.log := hinv.leader_log h.reign hterm
    refine ⟨a, Relation.ReflTransGen.refl, rfl, rfl, hterm, ?_, ?_⟩
    · cases hl with
      | keep => rfl
      | take hnot =>
        rw [hlog] at hnot
        exact absurd (List.take_prefix _ _) hnot
    · rw [hinv.ack_leader h.reign]
      exact h.le_length
  · have hterm : Function.update a.term p args.term p = args.term := Function.update_self _ _ _
    have haccepts : Step (majority m.members) LogEntry.term p
        { a with term := Function.update a.term p args.term } _ :=
      Step.accept p r (args.prevLogIndex + args.entries.length) l
        (by dsimp only; rw [hterm]; exact h.reign) hp h.le_length hl
    dsimp only at haccepts
    rw [hterm] at haccepts
    refine ⟨_, (advance_steps hle).tail haccepts, rfl, rfl, hterm, Function.update_self _ _ _, ?_⟩
    show args.prevLogIndex + args.entries.length ≤ put a.ack p args.term _ p args.term
    rw [put_apply, if_pos ⟨rfl, rfl⟩]
    exact Nat.le_max_right _ _

/-- A node handles a request. -/
theorem matched_appendEntries (hf : IsSlack f)
    (hinv : Inv (majority m.members) LogEntry.term a) (hnum : AllNumbered a)
    (h : NodeLog f m a p n) (hvotes : NodeVotes m a.ballot p n) (hplain : PlainLog n.log)
    {args : AppendEntriesArgs} {r : Reign String LogEntry} (hok : AppendOk m a args r)
    (hentries : PlainLog args.entries) (clock : Clock) :
    ∃ a', Matched f m a p (handleAppendEntries clock args n).2 a' ∧
      ((handleAppendEntries clock args n).1.success = true →
        args.prevLogIndex + args.entries.length ≤ a'.ack p args.term) := by
  have hcast := handleAppendEntries_castsNoVote clock args n
  rcases handleAppendEntries_cases clock args n with
    ⟨_, heq⟩ | ⟨⟨hle, _⟩, ⟨_, heq⟩ | ⟨hprev, heq⟩⟩ <;> rw [heq] at hcast ⊢
  · exact ⟨_, matched_same hf hinv hnum h rfl rfl rfl rfl rfl rfl, nofun⟩
  · obtain ⟨storage, -, -, -, hfollow⟩ := followLeader_eq clock hle
    rw [hfollow]
    exact ⟨_, matched_passive hinv hnum h hle rfl le_rfl nofun nofun, nofun⟩
  · obtain ⟨sm, storage, haccept⟩ := acceptEntries_plain clock hle hplain hentries
    have hwf : WellFormed LogEntry.term a n.currentTerm n.log := by
      rw [← h.term, ← h.log]
      exact hinv.log_wf p
    have hadopts := hok.adopts hinv hnum hwf hprev
    obtain ⟨a', hsteps, hballot, hreign, hterm, hlog, hack⟩ :=
      hok.accepted hinv (h.term ▸ hle) (l := args.entries.foldl mergeLog n.log)
        (by rw [h.log]; exact hadopts)
    obtain ⟨-, hg, -⟩ := steps_inv hinv hsteps
    have hlen := hadopts.holds.length_le
    rw [List.length_take, Nat.min_eq_left hok.le_length] at hlen
    have hcommitLe := hok.commit
    have hreignLen := hok.le_length
    -- what was committed is in the log of the leader, so the loop keeps it
    have hold : n.log.take n.commitIndex <+: args.entries.foldl mergeLog n.log := by
      refine hadopts.keeps (List.take_prefix _ _) (List.take_prefix _ _) ?_
      exact committed_prefix_reign hinv (h.committed.grows (Grows.refl a) hle) hok.reign
    have hnew : (args.entries.foldl mergeLog n.log).take args.leaderCommit =
        r.log.take args.leaderCommit := by
      rw [take_of_isPrefix hadopts.holds (by rw [List.length_take]; omega), List.take_take,
        Nat.min_eq_left hcommitLe]
    have hmin : min args.leaderCommit (args.entries.foldl mergeLog n.log).length =
        args.leaderCommit := by omega
    have holdLen := hold.length_le
    have hcommit := h.commit
    rw [List.length_take, Nat.min_eq_left hcommit] at holdLen
    have hsame : (args.entries.foldl mergeLog n.log).take n.commitIndex =
        n.log.take n.commitIndex := by
      rw [take_of_isPrefix hold (by rw [List.length_take]; omega), List.take_take, Nat.min_self]
    rw [haccept] at hcast ⊢
    refine ⟨a', ⟨hsteps, ?_, fun T r' hr' => hnum T r' (hreign ▸ hr'), ?_⟩, fun _ => hack⟩
    · rw [hballot, observe_of_castsNoVote hvotes hcast]
    · refine ⟨hterm, hlog, nofun, nofun, nofun, nofun, ?_, ?_⟩
      · dsimp only
        split_ifs <;> omega
      · dsimp only
        split_ifs with hlt
        · rw [hmin, hnew]
          exact hok.committed.grows hg le_rfl
        · have hcommitted := h.committed.grows hg hle
          rwa [← hsame] at hcommitted

/-! ## Replies -/

/-- The protocol does nothing. -/
theorem matched_stay (hnum : AllNumbered a) (hvotes : NodeVotes m a.ballot p n)
    (hcast : CastsNoVote n n') (hnode : NodeLog f m a p n') : Matched f m a p n' a :=
  ⟨Relation.ReflTransGen.refl, (observe_of_castsNoVote hvotes hcast).symm, hnum, hnode⟩

theorem matched_maybeCommit (hf : IsSlack f) (hinv : Inv (majority m.members) LogEntry.term a)
    (hnum : AllNumbered a) (h : NodeLog f m a p n) (hvotes : NodeVotes m a.ballot p n)
    (hstatic : Static m p n) (hp : p ∈ m.members) (clock : Clock) :
    Matched f m a p (n.maybeCommit clock) a :=
  matched_stay hnum hvotes (maybeCommit_castsNoVote clock n)
    (h.maybeCommit hf hinv hstatic hp clock)

/-- A leader records what a peer has. -/
theorem NodeLog.record (hf : IsSlack f) (hinv : Inv (majority m.members) LogEntry.term a)
    (h : NodeLog f m a p n) (clock : Clock) {peer : String} {index : Nat}
    (hack : n.state = .leader → index ≤ f n ∨ index ≤ a.ack peer n.currentTerm) :
    NodeLog f m a p
      { n with
        matchIndex := insertIndex n.matchIndex peer index
        nextIndex := insertIndex n.nextIndex peer (index + 1)
        lastQuorumHeartbeatAt := some clock.now } := by
  have hslack : f n ≤ f { n with
      matchIndex := insertIndex n.matchIndex peer index
      nextIndex := insertIndex n.nextIndex peer (index + 1)
      lastQuorumHeartbeatAt := some clock.now } := hf.mono rfl List.prefix_rfl
  refine ⟨h.term, h.log, h.leads, fun hs q hq => ?_, fun hs q => ?_, h.candidate, h.commit,
    h.committed⟩
  · unfold matchIndexFor insertIndex
    dsimp only
    by_cases hpeer : q = peer
    · rw [if_pos hpeer, hpeer]
      exact (hack hs).imp_left fun hle => hle.trans hslack
    · rw [if_neg hpeer]
      exact (h.matched hs q hq).imp_left fun hle => hle.trans hslack
  · unfold NextInLog insertIndex
    dsimp only
    by_cases hpeer : q = peer
    · rw [if_pos hpeer]
      have hle : index ≤ n.log.length := by
        rcases hack hs with hle | hle
        · have hinherited := hf.le_inherited n
          have hlength := n.inherited_le_length
          omega
        · obtain ⟨r, hr, rfl⟩ := h.leads hs
          have hlog := (hinv.leader_log hr h.term).symm.trans h.log
          have hbound := hinv.ack_le hr peer
          rw [hlog] at hbound
          omega
      dsimp only [Option.getD_some]
      omega
    · rw [if_neg hpeer]
      exact h.next hs q

/-- What a leader gets to know of a peer is within the slack, or is confirmed, or
the peer keeps up with the leader and is credited with it. -/
theorem NodeLog.credit (hf : IsSlack f) (hinv : Inv (majority m.members) LogEntry.term a)
    (h : NodeLog f m a p n) {peer : String} {index : Nat}
    (hack : n.state = .leader → index ≤ f n ∨ index ≤ a.ack peer n.currentTerm ∨
      KeepsUp a n.currentTerm n.log peer index) :
    ∃ a', Steps (majority m.members) LogEntry.term p a a' ∧ a'.ballot = a.ballot ∧
      a'.reign = a.reign ∧ NodeLog f m a' p n ∧
      (n.state = .leader → index ≤ f n ∨ index ≤ a'.ack peer n.currentTerm) := by
  by_cases hs : n.state = .leader
  · rcases hack hs with hle | hle | hkeeps
    · exact ⟨a, .refl, rfl, rfl, h, fun _ => Or.inl hle⟩
    · exact ⟨a, .refl, rfl, rfl, h, fun _ => Or.inr hle⟩
    · obtain ⟨r, hr, rfl⟩ := h.leads hs
      have hlog : r.log = n.log := (hinv.leader_log hr h.term).symm.trans h.log
      obtain ⟨a', hsteps, hterm, hlog', hballot, hreign, hack'⟩ :=
        credit_steps (fun _ => index) [peer] (n := r.leader) hinv hr
      refine ⟨a', hsteps, hballot, hreign, ?_,
        fun _ => Or.inr (hack' peer (List.mem_singleton_self _) (hlog ▸ hkeeps))⟩
      exact h.of_same hf (steps_inv hinv hsteps).2.1 hreign (congrFun hterm _) (congrFun hlog' _)
        rfl rfl rfl rfl rfl rfl
  · exact ⟨a, .refl, rfl, rfl, h, fun hs' => absurd hs' hs⟩

/-- A leader processes a reply. -/
theorem matched_appendReply (hf : IsSlack f) (hinv : Inv (majority m.members) LogEntry.term a)
    (hnum : AllNumbered a) (h : NodeLog f m a p n) (hvotes : NodeVotes m a.ballot p n)
    (hstatic : Static m p n) (hp : p ∈ m.members) (clock : Clock) {peer : String}
    {args : AppendEntriesArgs} {reply : AppendReplyArgs}
    (hack : reply.success = true → n.state = .leader →
      args.prevLogIndex + args.entries.length ≤ f n ∨
        args.prevLogIndex + args.entries.length ≤ a.ack peer n.currentTerm ∨
        KeepsUp a n.currentTerm n.log peer (args.prevLogIndex + args.entries.length)) :
    ∃ a', Matched f m a p (appendReply clock peer args reply n) a' := by
  unfold appendReply
  dsimp only
  split_ifs with hsuccess hnewer hnext
  · obtain ⟨a', hsteps, hballot, hreign, hnode, hack'⟩ := h.credit hf hinv (hack hsuccess)
    have hinv' := (steps_inv hinv hsteps).1
    have hstatic' : Static m p
        { n with
          matchIndex := insertIndex n.matchIndex peer (args.prevLogIndex + args.entries.length)
          nextIndex := insertIndex n.nextIndex peer (args.prevLogIndex + args.entries.length + 1)
          lastQuorumHeartbeatAt := some clock.now } := hstatic.of_same rfl rfl rfl rfl
    have hrecord := hnode.record hf hinv' clock hack'
    refine ⟨a', hsteps, ?_, fun T r hr => hnum T r (hreign ▸ hr),
      hrecord.maybeCommit hf hinv' hstatic' hp clock⟩
    rw [hballot]
    refine (observe_of_castsNoVote hvotes ?_).symm
    exact maybeCommit_castsNoVote clock _
  · obtain ⟨storage, -, -, -, heq⟩ := stepDown_eq reply.term n
    rw [heq]
    exact ⟨_, matched_passive hinv hnum h hnewer.le rfl le_rfl nofun nofun⟩
  · refine ⟨a, matched_stay hnum hvotes (.of_eq rfl rfl) ?_⟩
    have hslack : f n ≤ f { n with
        nextIndex := insertIndex n.nextIndex peer ((n.nextIndex peer).getD 1 - 1) } :=
      hf.mono rfl List.prefix_rfl
    refine ⟨h.term, h.log, h.leads, fun hs q hq => ?_, fun hs q => ?_, h.candidate, h.commit,
      h.committed⟩
    · exact (h.matched hs q hq).imp_left fun hle => hle.trans hslack
    · unfold NextInLog insertIndex
      dsimp only
      by_cases hpeer : q = peer
      · obtain ⟨hpos, hbound⟩ := h.next hs peer
        rw [if_pos hpeer]
        dsimp only [Option.getD_some]
        omega
      · rw [if_neg hpeer]
        exact h.next hs q
  · exact ⟨a, matched_stay hnum hvotes (.refl n) h⟩

end Lemmas

end OxideKv
