import OxideKv.Raft.Merge

/-!
# Log matching

A request of `sync_logs` carries a slice of the leader's log.  When the logs of
the leader and of the follower match, that is, when an entry of equal position
and term has equal entries below it, the loop of `handle_append_entries` has a
short description: the follower ends with its own log when that agrees with the
leader's as far as the request reaches, and with the leader's log up to there
otherwise.  `adoptPrefix` says so, and `SliceOf.foldl_mergeLog` proves it of the
loop.

* Matching logs, slices of a log, and the merge of a slice.
* `handleAppendEntries_merges`: what an accepted request leaves.
* `repairLoop`: the rounds of `sync_logs` with one peer up to the first
  success.
-/

namespace OxideKv

/-! ## Matching logs -/

/-- Entries of equal position and term have equal entries up to them. -/
def LogMatching (a b : List LogEntry) : Prop :=
  ∀ i x y, a[i]? = some x → b[i]? = some y → x.term = y.term → a.take (i + 1) = b.take (i + 1)

theorem logMatching_iff {a b : List LogEntry} :
    LogMatching a b ↔ ∀ i < min a.length b.length,
      (a[i]?).map LogEntry.term = (b[i]?).map LogEntry.term → a.take (i + 1) = b.take (i + 1) := by
  constructor
  · intro h i hi hterm
    have ha : a[i]? = some a[i] := List.getElem?_eq_getElem (by omega)
    have hb : b[i]? = some b[i] := List.getElem?_eq_getElem (by omega)
    rw [ha, hb] at hterm
    exact h i a[i] b[i] ha hb (Option.some.inj hterm)
  · intro h i x y hx hy hterm
    have hi := (List.getElem?_eq_some_iff.mp hx).1
    have hj := (List.getElem?_eq_some_iff.mp hy).1
    exact h i (by omega) (by rw [hx, hy, Option.map_some, Option.map_some, hterm])

instance (a b : List LogEntry) : Decidable (LogMatching a b) :=
  decidable_of_iff _ logMatching_iff.symm

namespace LogMatching

variable {a b c : List LogEntry}

theorem symm (h : LogMatching a b) : LogMatching b a :=
  fun i x y hx hy hterm => (h i y x hy hx hterm.symm).symm

/-- Two parts of one log match. -/
theorem of_prefix (ha : a <+: c) (hb : b <+: c) : LogMatching a b := by
  intro i x y hx hy _
  have hi := (List.getElem?_eq_some_iff.mp hx).1
  have hj := (List.getElem?_eq_some_iff.mp hy).1
  obtain ⟨s, rfl⟩ := ha
  obtain ⟨t, ht⟩ := hb
  have ha : (a ++ s).take (i + 1) = a.take (i + 1) := List.take_append_of_le_length (by omega)
  rw [← ha, ← ht, List.take_append_of_le_length (by omega : i + 1 ≤ b.length)]

theorem prefix_left (h : LogMatching a b) (hc : c <+: a) : LogMatching c b := by
  intro i x y hx hy hterm
  have hi := (List.getElem?_eq_some_iff.mp hx).1
  obtain ⟨s, rfl⟩ := hc
  have hx' : (c ++ s)[i]? = some x := by rw [List.getElem?_append_left hi, hx]
  rw [← h i x y hx' hy hterm, List.take_append_of_le_length (by omega)]

/-- Equal terms at the last of `m` entries make the `m` entries equal. -/
theorem take_eq (h : LogMatching a b) {m : Nat} (hle : m + 1 ≤ a.length)
    (hterm : (b[m]?).map LogEntry.term = (a[m]?).map LogEntry.term) :
    b.take (m + 1) = a.take (m + 1) := by
  have ha : a[m]? = some a[m] := List.getElem?_eq_getElem hle
  rw [ha, Option.map_some] at hterm
  obtain ⟨y, hy, hyterm⟩ := Option.map_eq_some_iff.mp hterm
  exact (h m a[m] y ha hy hyterm.symm).symm

end LogMatching

/-- The log after a request that reaches up to entry `m` of the log `L`. -/
def adoptPrefix (L : List LogEntry) (m : Nat) (F : List LogEntry) : List LogEntry :=
  if F.take m = L.take m then F else L.take m

section AdoptPrefix

variable {L F G : List LogEntry} {m : Nat}

theorem adoptPrefix_take (L : List LogEntry) (m : Nat) (F : List LogEntry) :
    (adoptPrefix L m F).take m = L.take m := by
  unfold adoptPrefix
  split_ifs with h
  · exact h
  · rw [List.take_take, Nat.min_self]

theorem adoptPrefix_numbered (hL : Numbered L) (hF : Numbered F) :
    Numbered (adoptPrefix L m F) := by
  unfold adoptPrefix
  split_ifs
  · exact hF
  · exact hL.take m

theorem adoptPrefix_matching (hL : LogMatching L G) (hF : LogMatching F G) :
    LogMatching (adoptPrefix L m F) G := by
  unfold adoptPrefix
  split_ifs
  · exact hF
  · exact hL.prefix_left (List.take_prefix m L)

/-- What the log already has in common with `L` stays. -/
theorem adoptPrefix_keeps {p : Nat} (hF : F.take p = L.take p) :
    (adoptPrefix L m F).take p = L.take p := by
  unfold adoptPrefix
  split_ifs with h
  · exact hF
  · -- the logs differ below `m` and agree up to `p`, so `p` is below `m`
    have hlt : p < m := by
      by_contra hge
      have hmp : min m p = m := by omega
      apply h
      rw [← hmp, ← List.take_take, ← List.take_take, hF]
    rw [List.take_take, Nat.min_eq_left hlt.le]

end AdoptPrefix

/-! ## The slice of a request -/

/-- The request carries entries of `L` that follow one another from
`prevLogIndex` on, and the term of the entry before them. -/
structure SliceOf (L : List LogEntry) (args : AppendEntriesArgs) : Prop where
  prev_le : args.prevLogIndex ≤ L.length
  prev_term : args.prevLogIndex ≠ 0 →
    (L[args.prevLogIndex - 1]?).map LogEntry.term = some args.prevLogTerm
  entries : args.entries <+: L.drop args.prevLogIndex

namespace SliceOf

variable {L F : List LogEntry} {args : AppendEntriesArgs} {n : RaftNode}

/-- The slice is one of every log that goes on from `L`. -/
theorem mono (h : SliceOf L args) {L' : List LogEntry} (hL : L <+: L') : SliceOf L' args := by
  obtain ⟨s, rfl⟩ := hL
  refine ⟨?_, fun hpos => ?_, h.entries.trans ?_⟩
  · rw [List.length_append]
    have := h.prev_le
    omega
  · have := h.prev_le
    rw [List.getElem?_append_left (by omega)]
    exact h.prev_term hpos
  · rw [List.drop_append_of_le_length h.prev_le]
    exact List.prefix_append _ _

theorem end_le (h : SliceOf L args) : args.prevLogIndex + args.entries.length ≤ L.length := by
  have hlen := h.entries.length_le
  have hprev := h.prev_le
  rw [List.length_drop] at hlen
  omega

theorem getElem? (h : SliceOf L args) {i : Nat} (hi : i < args.entries.length) :
    args.entries[i]? = L[args.prevLogIndex + i]? := by
  obtain ⟨s, hs⟩ := h.entries
  rw [← List.getElem?_drop, ← hs, List.getElem?_append_left hi]

theorem numberedAfter (h : SliceOf L args) (hL : Numbered L) :
    NumberedAfter args.prevLogIndex args.entries := by
  intro i e hi
  have hlt := (List.getElem?_eq_some_iff.mp hi).1
  rw [h.getElem? hlt] at hi
  exact hL _ e hi

/-- `L` up to the end of the slice, cut at the slice's entry `k`. -/
theorem take_append_drop (h : SliceOf L args) {k : Nat} (hk : k ≤ args.entries.length) :
    L.take (args.prevLogIndex + k) ++ args.entries.drop k =
      L.take (args.prevLogIndex + args.entries.length) := by
  have hentries : args.entries = (L.drop args.prevLogIndex).take args.entries.length :=
    List.prefix_iff_eq_take.mp h.entries
  have hdrop : args.entries.drop k =
      (L.drop (args.prevLogIndex + k)).take (args.entries.length - k) := by
    nth_rewrite 1 [hentries]
    rw [List.drop_take, List.drop_drop]
  rw [hdrop, ← List.take_add]
  congr 1
  omega

/-- The consistency check of a slice: the logs agree up to `prevLogIndex`. -/
theorem take_prev (h : SliceOf L args) (hmatch : LogMatching L n.log)
    (hprev : RaftNode.prevLogMatches args n = true) :
    n.log.take args.prevLogIndex = L.take args.prevLogIndex := by
  rcases RaftNode.prevLogMatches_spec hprev with h0 | ⟨hpos, _, e, he, hterm⟩
  · rw [h0, List.take_zero, List.take_zero]
  · have hLterm := h.prev_term (by omega)
    have hle := h.prev_le
    have heq : args.prevLogIndex - 1 + 1 = args.prevLogIndex := by omega
    have htake := hmatch.take_eq (m := args.prevLogIndex - 1) (by omega)
      (by rw [he, hLterm, Option.map_some, hterm])
    rwa [heq] at htake

/-- The first `k` entries of the slice agree with the log in term. -/
def AgreesTo (F : List LogEntry) (args : AppendEntriesArgs) (k : Nat) : Prop :=
  ∀ i < k, (F[args.prevLogIndex + i]?).map LogEntry.term =
    (args.entries[i]?).map LogEntry.term

/-- A slice that does not agree has a first entry that does not. -/
theorem exists_first_disagreement {F : List LogEntry} {args : AppendEntriesArgs} {m : Nat}
    (h : ¬AgreesTo F args m) : ∃ k < m, AgreesTo F args k ∧ ¬AgreesTo F args (k + 1) := by
  induction m with
  | zero => exact absurd (fun i hi => by omega) h
  | succ m ih =>
    by_cases hm : AgreesTo F args m
    · exact ⟨m, Nat.lt_succ_self m, hm, h⟩
    · obtain ⟨k, hk, hagree, hdiffers⟩ := ih hm
      exact ⟨k, by omega, hagree, hdiffers⟩

/-- In matching logs, agreement in term is agreement. -/
theorem take_of_agreesTo (h : SliceOf L args) (hmatch : LogMatching L F)
    (hprev : F.take args.prevLogIndex = L.take args.prevLogIndex) {k : Nat}
    (hk : k ≤ args.entries.length) (hagree : AgreesTo F args k) :
    F.take (args.prevLogIndex + k) = L.take (args.prevLogIndex + k) := by
  cases k with
  | zero => exact hprev
  | succ k =>
    have hend := h.end_le
    have hterm := hagree k (Nat.lt_succ_self k)
    rw [h.getElem? hk] at hterm
    have hle : args.prevLogIndex + k + 1 ≤ L.length := by omega
    exact hmatch.take_eq hle hterm

/-- Equal logs agree. -/
theorem agreesTo_of_take (h : SliceOf L args)
    (heq : F.take (args.prevLogIndex + args.entries.length) =
      L.take (args.prevLogIndex + args.entries.length)) :
    AgreesTo F args args.entries.length := by
  intro i hi
  have hget : F[args.prevLogIndex + i]? = L[args.prevLogIndex + i]? := by
    rw [← List.getElem?_take_of_lt (l := F) (by omega : args.prevLogIndex + i <
      args.prevLogIndex + args.entries.length), heq, List.getElem?_take_of_lt (by omega)]
  rw [h.getElem? hi, hget]

/-- The loop of `handle_append_entries` on a slice of a matching log. -/
theorem foldl_mergeLog (h : SliceOf L args) (hL : Numbered L) (hmatch : LogMatching L F)
    (hle : args.prevLogIndex ≤ F.length)
    (hprev : F.take args.prevLogIndex = L.take args.prevLogIndex) :
    args.entries.foldl RaftNode.mergeLog F =
      adoptPrefix L (args.prevLogIndex + args.entries.length) F := by
  obtain ⟨k, hk⟩ := RaftNode.foldl_mergeLog_cut args.entries (h.numberedAfter hL) hle
  have htake := h.take_of_agreesTo hmatch hprev hk.le_entries hk.agree
  rcases hk.cut with ⟨rfl, hfold, -⟩ | ⟨hlt, hfold, hcut⟩
  · rw [hfold, adoptPrefix, if_pos htake]
  · have hne : F.take (args.prevLogIndex + args.entries.length) ≠
        L.take (args.prevLogIndex + args.entries.length) := by
      intro heq
      have hagree := h.agreesTo_of_take heq
      rcases hcut with ⟨hlen, -⟩ | ⟨-, hconf⟩
      · -- the log is too short to agree
        have hlens := congrArg List.length heq
        rw [List.length_take, List.length_take, Nat.min_eq_left h.end_le] at hlens
        omega
      · have hnone := conflictsWith_of_agree args.entries (h.numberedAfter hL) fun i e he => by
          rw [hagree i (List.getElem?_eq_some_iff.mp he).1, he, Option.map_some]
        rw [hconf] at hnone
        cases hnone
    rw [hfold, adoptPrefix, if_neg hne, htake, h.take_append_drop hk.le_entries]

end SliceOf

namespace RaftNode

/-- `sync_logs` sends a slice of the leader's log when `next_index` lies in it
or just after it. -/
theorem syncPeer_sliceOf {round : SyncRound} {peer : String} {leader : RaftNode}
    {args : AppendEntriesArgs} (hsync : syncPeer round peer leader = some args)
    (hpos : 1 ≤ (leader.nextIndex peer).getD 1)
    (hle : (leader.nextIndex peer).getD 1 ≤ leader.log.length + 1) :
    args.term = round.currentTerm ∧ args.leaderCommit = round.commitIndex ∧
      args.prevLogIndex + 1 = (leader.nextIndex peer).getD 1 ∧
      args.entries =
        (if (leader.nextIndex peer).getD 1 ≤ round.logLen then
          leader.log.drop args.prevLogIndex else []) ∧
      SliceOf leader.log args := by
  obtain ⟨prev, hnext⟩ : ∃ prev, (leader.nextIndex peer).getD 1 = prev + 1 :=
    ⟨(leader.nextIndex peer).getD 1 - 1, by omega⟩
  have hprev : prev ≤ leader.log.length := by omega
  have hterm : prev ≠ 0 → (leader.log[prev - 1]?).map LogEntry.term =
      some (if prev = 0 then 0 else ((leader.log[prev - 1]?).map LogEntry.term).getD 0) := by
    intro hne
    rw [if_neg hne, List.getElem?_eq_getElem (by omega)]
    rfl
  rw [syncPeer] at hsync
  dsimp only at hsync
  rw [hnext, usizePred_succ] at hsync
  rw [hnext]
  by_cases hin : prev + 1 ≤ round.logLen
  · rw [if_pos hin, if_pos hprev] at hsync
    obtain rfl := Option.some.inj hsync
    exact ⟨rfl, rfl, rfl, (if_pos hin).symm, hprev, hterm, List.prefix_refl _⟩
  · rw [if_neg hin] at hsync
    obtain rfl := Option.some.inj hsync
    exact ⟨rfl, rfl, rfl, (if_neg hin).symm, hprev, hterm, List.nil_prefix⟩

theorem syncPeer_isSome (round : SyncRound) {peer : String} {leader : RaftNode}
    (hpos : 1 ≤ (leader.nextIndex peer).getD 1)
    (hle : (leader.nextIndex peer).getD 1 ≤ leader.log.length + 1) :
    ∃ args, syncPeer round peer leader = some args := by
  obtain ⟨prev, hnext⟩ : ∃ prev, (leader.nextIndex peer).getD 1 = prev + 1 :=
    ⟨(leader.nextIndex peer).getD 1 - 1, by omega⟩
  have hprev : prev ≤ leader.log.length := by omega
  unfold syncPeer
  dsimp only
  rw [hnext, usizePred_succ, if_pos hprev]
  exact ⟨_, (apply_ite some _ _ _).symm⟩

/-- An accepted request was for a term the node follows, and it passed the
consistency check. -/
theorem handleAppendEntries_success {clock : Clock} {args : AppendEntriesArgs} {n : RaftNode}
    (h : (handleAppendEntries clock args n).1.success = true) :
    n.Accepts args.term ∧ prevLogMatches args n = true ∧
      handleAppendEntries clock args n =
        ({ term := args.term, success := true },
          followCommit clock args.leaderCommit
            (args.entries.foldl mergeEntry (followLeader clock args.term n))) := by
  rcases handleAppendEntries_cases clock args n with
    ⟨-, heq⟩ | ⟨haccepts, ⟨-, heq⟩ | ⟨hprev, heq⟩⟩
  · rw [heq] at h
    cases h
  · rw [heq] at h
    cases h
  · exact ⟨haccepts, hprev, heq⟩

/-- A request that is not accepted leaves the log alone. -/
theorem handleAppendEntries_refused {clock : Clock} {args : AppendEntriesArgs} {n : RaftNode}
    (h : (handleAppendEntries clock args n).1.success = false) :
    (handleAppendEntries clock args n).2.log = n.log := by
  rcases handleAppendEntries_cases clock args n with
    ⟨-, heq⟩ | ⟨⟨hle, -⟩, ⟨-, heq⟩ | ⟨-, heq⟩⟩
  · rw [heq]
  · obtain ⟨storage, -, -, -, hfollow⟩ := followLeader_eq clock hle
    rw [heq, hfollow]
  · rw [heq] at h
    cases h

/-- The log after an accepted request. -/
theorem handleAppendEntries_log {clock : Clock} {args : AppendEntriesArgs} {n : RaftNode}
    (h : (handleAppendEntries clock args n).1.success = true) :
    (handleAppendEntries clock args n).2.log = args.entries.foldl mergeLog n.log := by
  obtain ⟨⟨hle, -⟩, -, heq⟩ := handleAppendEntries_success h
  obtain ⟨storage, -, -, -, hfollow⟩ := followLeader_eq clock hle
  obtain ⟨storage', -, -, hmerge⟩ :=
    foldl_mergeEntry_eq args.entries (followLeader clock args.term n)
  have hext := followCommit_extends clock args.leaderCommit
    (args.entries.foldl mergeEntry (followLeader clock args.term n))
  rw [heq]
  dsimp only
  rw [hext.log_eq (by rw [hmerge, hfollow]; exact NodeState.noConfusion), hmerge, hfollow]

/-- An accepted slice of a matching log. -/
theorem handleAppendEntries_adopts {clock : Clock} {L : List LogEntry}
    {args : AppendEntriesArgs} {n : RaftNode} (hslice : SliceOf L args) (hL : Numbered L)
    (hmatch : LogMatching L n.log)
    (h : (handleAppendEntries clock args n).1.success = true) :
    args.prevLogIndex ≤ n.log.length ∧
      n.log.take args.prevLogIndex = L.take args.prevLogIndex ∧
      (handleAppendEntries clock args n).2.log =
        adoptPrefix L (args.prevLogIndex + args.entries.length) n.log := by
  obtain ⟨-, hprev, -⟩ := handleAppendEntries_success h
  have hle := prevLogMatches_le hprev
  have htake := hslice.take_prev hmatch hprev
  exact ⟨hle, htake, by
    rw [handleAppendEntries_log h, hslice.foldl_mergeLog hL hmatch hle htake]⟩

/-- A leader of term 2 whose second and third entry a follower of three old
entries lacks. -/
def leaderOfTwo : RaftNode :=
  { freshNode "a" ["b"] with
    state := .leader
    currentTerm := 2
    log :=
      [{ term := 1, index := 1, command := .set "x" "1" },
        { term := 2, index := 2, command := .set "x" "2" },
        { term := 2, index := 3, command := .set "x" "3" }]
    nextIndex := fun p => if p = "b" then some 3 else none }

def followerOfOne : RaftNode :=
  { freshNode "b" ["a"] with
    currentTerm := 1
    log :=
      [{ term := 1, index := 1, command := .set "x" "1" },
        { term := 1, index := 2, command := .set "y" "2" },
        { term := 1, index := 3, command := .set "y" "3" },
        { term := 1, index := 4, command := .set "y" "4" }] }

/-- A request that starts after the first entry. -/
def requestOfTwo : AppendEntriesArgs :=
  { term := 2
    leaderId := "a"
    prevLogIndex := 1
    prevLogTerm := 1
    entries := leaderOfTwo.log.drop 1
    leaderCommit := 0 }

/-- One round of `sync_logs` with one peer: the request, the handler of the
peer, and the reply.  `none` is the slice outside the log, where the source
panics. -/
def repairCycle (clock : Clock) (peer : String) (leader follower : RaftNode) :
    Option (Bool × RaftNode × RaftNode) :=
  (syncPeer (syncRound leader) peer leader).map fun args =>
    let (reply, follower) := handleAppendEntries clock args follower
    (reply.success, appendReply clock peer args reply leader, follower)

/-- At most `fuel` rounds, up to the first that succeeds.  `none` when none
does. -/
def repairLoop (clocks : Nat → Clock) (peer : String) :
    Nat → RaftNode → RaftNode → Option (RaftNode × RaftNode)
  | 0, _, _ => none
  | fuel + 1, leader, follower =>
      match repairCycle (clocks fuel) peer leader follower with
      | none => none
      | some (true, leader, follower) => some (leader, follower)
      | some (false, leader, follower) => repairLoop clocks peer fuel leader follower

/-- What the rounds keep: the logs match, `next_index` lies in the log of the
leader or just after it, and the follower does not refuse the leader's term. -/
structure Repairing (peer : String) (leader follower : RaftNode) : Prop where
  leader_numbered : Numbered leader.log
  log_matching : LogMatching leader.log follower.log
  next_pos : 1 ≤ (leader.nextIndex peer).getD 1
  next_le : (leader.nextIndex peer).getD 1 ≤ leader.log.length + 1
  accepts : follower.Accepts leader.currentTerm

/-- A round succeeds and transfers the whole log, or it is refused and
`next_index` goes down by one. -/
theorem repairCycle_cases (clock : Clock) {peer : String} {leader follower : RaftNode}
    (h : Repairing peer leader follower) :
    (∃ leader' follower',
      repairCycle clock peer leader follower = some (true, leader', follower') ∧
        follower'.log.take leader.log.length = leader.log ∧
        leader'.matchIndex peer = some leader.log.length) ∨
      1 < (leader.nextIndex peer).getD 1 ∧ ∃ follower',
        repairCycle clock peer leader follower =
          some (false,
            { leader with
              nextIndex := insertIndex leader.nextIndex peer
                ((leader.nextIndex peer).getD 1 - 1) }, follower') ∧
        follower'.log = follower.log ∧ follower'.currentTerm = leader.currentTerm ∧
        follower'.state = .follower := by
  obtain ⟨args, hsync⟩ := syncPeer_isSome (syncRound leader) h.next_pos h.next_le
  obtain ⟨hterm, -, hnext, hentries, hslice⟩ := syncPeer_sliceOf hsync h.next_pos h.next_le
  have hterm : args.term = leader.currentTerm := hterm
  -- the request reaches to the end of the log
  have hend : args.prevLogIndex + args.entries.length = leader.log.length := by
    have hle := hslice.prev_le
    rw [hentries]
    show _ + (if _ ≤ leader.log.length then _ else _ : List LogEntry).length = _
    split_ifs
    · rw [List.length_drop]
      omega
    · rw [List.length_nil]
      omega
  rw [repairCycle, hsync, Option.map_some]
  dsimp only
  rcases handleAppendEntries_cases clock args follower with
    ⟨hrefuses, -⟩ | ⟨⟨hle, -⟩, ⟨hprev, heq⟩ | ⟨hprev, heq⟩⟩
  · exact absurd h.accepts (hterm ▸ hrefuses)
  · -- refused by the consistency check
    have hgt : 1 < (leader.nextIndex peer).getD 1 := by
      by_contra hone
      rw [prevLogMatches, show args.prevLogIndex = 0 by omega] at hprev
      cases hprev
    refine Or.inr ⟨hgt, followLeader clock args.term follower, ?_, ?_⟩
    · rw [heq]
      dsimp only
      rw [appendReply, if_neg Bool.false_ne_true, if_neg (Nat.not_lt.mpr hterm.le)]
      dsimp only
      rw [if_pos hgt]
    · obtain ⟨storage, -, -, -, hfollow⟩ := followLeader_eq clock hle
      rw [hfollow]
      exact ⟨rfl, hterm, rfl⟩
  · have hsuccess : (handleAppendEntries clock args follower).1.success = true := by rw [heq]
    obtain ⟨-, -, hlog⟩ :=
      handleAppendEntries_adopts hslice h.leader_numbered h.log_matching hsuccess
    refine Or.inl ⟨_, _, by rw [hsuccess], ?_, ?_⟩
    · rw [hlog, hend, adoptPrefix_take, List.take_length]
    · rw [appendReply, if_pos hsuccess]
      dsimp only
      rw [hend]
      obtain ⟨c, -, hext⟩ := maybeCommit_extends clock
        { leader with
          matchIndex := insertIndex leader.matchIndex peer leader.log.length
          nextIndex := insertIndex leader.nextIndex peer (leader.log.length + 1)
          lastQuorumHeartbeatAt := some clock.now }
      rw [hext.matchIndex]
      exact if_pos rfl

/-- A refused round leaves everything for the next one. -/
theorem Repairing.next {peer : String} {leader follower follower' : RaftNode}
    (h : Repairing peer leader follower) (hgt : 1 < (leader.nextIndex peer).getD 1)
    (hlog : follower'.log = follower.log) (hterm : follower'.currentTerm = leader.currentTerm)
    (hstate : follower'.state = .follower) :
    Repairing peer
      { leader with
        nextIndex := insertIndex leader.nextIndex peer ((leader.nextIndex peer).getD 1 - 1) }
      follower' := by
  have hnext : (insertIndex leader.nextIndex peer ((leader.nextIndex peer).getD 1 - 1) peer).getD 1
      = (leader.nextIndex peer).getD 1 - 1 := by
    rw [insertIndex, if_pos rfl, Option.getD_some]
  have hle := h.next_le
  refine ⟨h.leader_numbered, hlog ▸ h.log_matching, ?_, ?_, hterm.le, ?_⟩
  · show 1 ≤ Option.getD _ 1
    rw [hnext]
    omega
  · show Option.getD _ 1 ≤ leader.log.length + 1
    rw [hnext]
    omega
  · rw [hstate]
    exact fun hc => by cases hc.2

/-- The rounds of `sync_logs` with a peer come to a success after at most
`next_index` of them.  The peer then holds the whole log of the leader, and
the leader knows it. -/
theorem repairLoop_converges (clocks : Nat → Clock) (peer : String) (fuel : Nat) :
    ∀ {leader follower : RaftNode}, Repairing peer leader follower →
      (leader.nextIndex peer).getD 1 ≤ fuel →
      ∃ leader' follower', repairLoop clocks peer fuel leader follower =
          some (leader', follower') ∧
        follower'.log.take leader.log.length = leader.log ∧
        leader'.matchIndex peer = some leader.log.length := by
  induction fuel with
  | zero =>
    intro leader follower h hfuel
    have := h.next_pos
    omega
  | succ fuel ih =>
    intro leader follower h hfuel
    rw [repairLoop]
    rcases repairCycle_cases (clocks fuel) h with
      ⟨leader', follower', heq, hresult⟩ | ⟨hgt, follower', heq, hlog, hterm, hstate⟩
    · rw [heq]
      exact ⟨leader', follower', rfl, hresult⟩
    · -- one round less is left, and `next_index` is one lower
      rw [heq]
      refine ih (h.next hgt hlog hterm hstate) ?_
      show Option.getD (insertIndex _ peer _ peer) 1 ≤ fuel
      rw [insertIndex, if_pos rfl, Option.getD_some]
      omega

theorem repairLoop_converges_divergent :
    ∃ leader' follower',
      repairLoop (fun _ => someClock) "b" 3 leaderOfTwo followerOfOne =
          some (leader', follower') ∧
        follower'.log.take 3 = leaderOfTwo.log ∧ leader'.matchIndex "b" = some 3 :=
  repairLoop_converges _ "b" 3 ⟨by decide, by decide, by decide, by decide, by decide⟩
    (by decide)

end RaftNode

end OxideKv
