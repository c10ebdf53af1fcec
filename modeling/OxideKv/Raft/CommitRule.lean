import OxideKv.Raft.Merge
import Mathlib.Data.Nat.Find

/-!
# The commit rule of the leader

`maybe_commit` looks for the highest index that a quorum holds by binary
search and then tests the term of that one entry.

* The search: a server that holds an index holds every lower one, so the
  quorum predicate is antitone, for both majorities of a joint configuration
  at once, and the search ends at the greatest index that satisfies it.
  `quorumSearchChecked` is the same search with the additions of `u64` checked
  and the turns counted; it agrees with the search on every log shorter than
  `2 ^ 63`.
* The rule: terms do not go back along the log, so when the highest index has
  an older term every lower one has too, and nothing is lost by not looking
  at them.
-/

namespace OxideKv

/-! ## The search -/

/-- `u64` addition; `none` is the overflow. -/
def u64Add (a b : Nat) : Option Nat :=
  if a + b < 2 ^ 64 then some (a + b) else none

/-- The loop of `config_quorum_reached_index` on `u64`.  `none` is an addition
that overflows, or a loop that is not finished after `fuel` turns. -/
def quorumSearchChecked (reached : Nat → Bool) : Nat → Nat → Nat → Nat → Option Nat
  | 0, _, _, _ => none
  | fuel + 1, lo, hi, best =>
      if lo ≤ hi then
        (u64Add lo hi).bind fun sum =>
          let mid := sum / 2
          if reached mid then
            if mid = hi then some mid
            else (u64Add mid 1).bind fun lo => quorumSearchChecked reached fuel lo hi mid
          else if mid = 0 then some best
          else quorumSearchChecked reached fuel lo (mid - 1) best
      else some best

/-- A turn halves the interval, and both sums stay below `2 ^ 64` when the
interval lies below `2 ^ 63`. -/
theorem quorumSearchChecked_eq (reached : Nat → Bool) (fuel : Nat) :
    ∀ {lo hi : Nat} (best : Nat), 0 < lo → hi < 2 ^ 63 → hi + 1 - lo < fuel →
      quorumSearchChecked reached fuel lo hi best =
        some (quorumSearch reached fuel lo hi best) := by
  induction fuel with
  | zero =>
    intro lo hi best _ _ hfuel
    omega
  | succ fuel ih =>
    intro lo hi best hlo hhi hfuel
    rw [quorumSearchChecked, quorumSearch]
    dsimp only
    by_cases hle : lo ≤ hi
    · have hsum : u64Add lo hi = some (lo + hi) := by
        rw [u64Add, if_pos (by omega)]
      have hsucc : u64Add ((lo + hi) / 2) 1 = some ((lo + hi) / 2 + 1) := by
        rw [u64Add, if_pos (by omega)]
      rw [if_pos hle, if_pos hle, hsum, Option.bind_some, hsucc, Option.bind_some]
      split_ifs with hmid heq hzero
      · rfl
      · exact ih _ (by omega) hhi (by omega)
      · rfl
      · exact ih _ hlo (by omega) (by omega)
    · rw [if_neg hle, if_neg hle]

/-- The loop invariant: everything up to `lo` is known to be reached, nothing
above `hi` is. -/
structure SearchInv (reached : Nat → Bool) (top lo hi best : Nat) : Prop where
  lo_eq : lo = best + 1
  best_le : best ≤ hi
  hi_le : hi ≤ top
  best_reached : best ≠ 0 → reached best = true
  above : ∀ i, hi < i → i ≤ top → reached i = false

/-- The search ends at the greatest index that is reached. -/
theorem quorumSearch_eq_findGreatest {reached : Nat → Bool} {top : Nat}
    (hanti : ∀ i j, i ≤ j → reached j = true → reached i = true) (fuel : Nat) :
    ∀ {lo hi best : Nat}, SearchInv reached top lo hi best → hi + 1 - lo < fuel →
      quorumSearch reached fuel lo hi best = Nat.findGreatest (fun i => reached i = true) top := by
  induction fuel with
  | zero =>
    intro lo hi best _ hfuel
    omega
  | succ fuel ih =>
    intro lo hi best h hfuel
    have hlo := h.lo_eq
    have hbest := h.best_le
    have htop := h.hi_le
    rw [quorumSearch]
    dsimp only
    split_ifs with hle hmid heq hzero
    · -- the upper end of the interval is reached, and nothing above it
      symm
      rw [Nat.findGreatest_eq_iff]
      refine ⟨by omega, fun _ => hmid, fun i hi hi' => ?_⟩
      rw [h.above i (by omega) hi']
      exact Bool.false_ne_true
    · exact ih ⟨rfl, by omega, htop, fun _ => hmid, h.above⟩ (by omega)
    · omega
    · refine ih ⟨hlo, by omega, by omega, h.best_reached, fun i hi hi' => ?_⟩ (by omega)
      -- an index above the middle would make the middle reached
      cases hri : reached i with
      | false => rfl
      | true => exact absurd (hanti _ i (by omega) hri) hmid
    · symm
      rw [Nat.findGreatest_eq_iff]
      refine ⟨by omega, h.best_reached, fun i hi hi' => ?_⟩
      rw [h.above i (by omega) hi']
      exact Bool.false_ne_true

/-- A majority that holds an index holds every lower one. -/
theorem majorityReached_anti {servers : List ServerId} {matchIndex : IndexMap}
    {selfNodeId : String} {selfIndex i j : Nat} (hij : i ≤ j)
    (h : majorityReached servers matchIndex selfNodeId selfIndex j = true) :
    majorityReached servers matchIndex selfNodeId selfIndex i = true := by
  unfold majorityReached at h ⊢
  rw [decide_eq_true_eq] at h ⊢
  refine h.trans_le (List.countP_mono_left fun s _ hs => ?_)
  rw [decide_eq_true_eq] at hs ⊢
  exact hij.trans hs

theorem configQuorumReached_anti {config : Configuration} {matchIndex : IndexMap}
    {selfNodeId : String} {selfIndex : Nat} (i j : Nat) (hij : i ≤ j)
    (h : configQuorumReached config matchIndex selfNodeId selfIndex j = true) :
    configQuorumReached config matchIndex selfNodeId selfIndex i = true := by
  cases config with
  | simple servers => exact majorityReached_anti hij h
  | joint old new =>
    unfold configQuorumReached at h ⊢
    rw [Bool.and_eq_true] at h ⊢
    exact ⟨majorityReached_anti hij h.1, majorityReached_anti hij h.2⟩

/-- `config_quorum_reached_index` is the greatest index of the log that the
quorum holds. -/
theorem configQuorumReachedIndex_eq (config : Configuration) (matchIndex : IndexMap)
    (selfNodeId : String) (selfIndex : Nat) :
    configQuorumReachedIndex config matchIndex selfNodeId selfIndex =
      Nat.findGreatest
        (fun i => configQuorumReached config matchIndex selfNodeId selfIndex i = true)
        selfIndex := by
  apply quorumSearch_eq_findGreatest configQuorumReached_anti
  · exact ⟨rfl, Nat.zero_le _, Nat.le_refl _, fun h => absurd rfl h, fun i hi hi' => by omega⟩
  · omega

namespace RaftNode

/-! ## The rule -/

/-- A quorum of the current configuration holds index `i`. -/
def QuorumAt (n : RaftNode) (i : Nat) : Prop :=
  configQuorumReached n.currentConfig n.matchIndex n.nodeId n.log.length i = true

instance (n : RaftNode) : DecidablePred n.QuorumAt :=
  fun _ => inferInstanceAs (Decidable (_ = true))

/-- Entry `i` of the log, counted from one, has the term of the node. -/
def OwnTermAt (n : RaftNode) (i : Nat) : Prop :=
  0 < i ∧ (n.log[i - 1]?).map LogEntry.term = some n.currentTerm

instance (n : RaftNode) : DecidablePred n.OwnTermAt :=
  fun _ => inferInstanceAs (Decidable (_ ∧ _))

/-- Above an entry of the node's own term every entry has that term. -/
theorem OwnTermAt.mono {n : RaftNode} (hsorted : TermsSorted n.log)
    (hterms : ∀ e ∈ n.log, e.term ≤ n.currentTerm) {i j : Nat} (h : n.OwnTermAt i)
    (hij : i ≤ j) (hj : j ≤ n.log.length) : n.OwnTermAt j := by
  obtain ⟨hpos, hi⟩ := h
  refine ⟨by omega, ?_⟩
  obtain ⟨e, he, hterm⟩ := Option.map_eq_some_iff.mp hi
  obtain ⟨hlt, rfl⟩ := List.getElem?_eq_some_iff.mp he
  have hjlt : j - 1 < n.log.length := by omega
  have hle : n.log[i - 1].term ≤ n.log[j - 1].term := by
    rcases Nat.lt_or_eq_of_le hij with hlt' | rfl
    · have hpair := List.pairwise_iff_getElem.mp (List.pairwise_map.mp hsorted)
      exact hpair (i - 1) (j - 1) hlt hjlt (by omega)
    · exact Nat.le_refl _
  have hge := hterms n.log[j - 1] (List.getElem_mem hjlt)
  rw [List.getElem?_eq_getElem hjlt, Option.map_some]
  congr 1
  omega

/-- The highest index of a quorum has the node's own term, or no index of a
quorum has. -/
theorem findGreatest_quorum_own {n : RaftNode} (hsorted : TermsSorted n.log)
    (hterms : ∀ e ∈ n.log, e.term ≤ n.currentTerm) :
    Nat.findGreatest (fun i => n.QuorumAt i ∧ n.OwnTermAt i) n.log.length =
      if n.OwnTermAt (Nat.findGreatest n.QuorumAt n.log.length) then
        Nat.findGreatest n.QuorumAt n.log.length
      else 0 := by
  have hspec := (Nat.findGreatest_eq_iff (P := n.QuorumAt) (k := n.log.length)).mp rfl
  obtain ⟨hle, hreached, habove⟩ := hspec
  rw [Nat.findGreatest_eq_iff]
  split_ifs with hown
  · refine ⟨hle, fun hne => ⟨hreached hne, hown⟩, fun i hi hi' h => ?_⟩
    exact habove hi hi' h.1
  · refine ⟨Nat.zero_le _, fun h => absurd rfl h, fun i hi hi' h => hown ?_⟩
    have hile : i ≤ Nat.findGreatest n.QuorumAt n.log.length :=
      Nat.le_findGreatest hi' h.1
    exact h.2.mono hsorted hterms hile hle

/-- The commit index after `maybe_commit`. -/
theorem maybeCommit_commitIndex (clock : Clock) {n : RaftNode} (hs : n.state = .leader) :
    (maybeCommit clock n).commitIndex =
      if n.OwnTermAt (Nat.findGreatest n.QuorumAt n.log.length) then
        max n.commitIndex (Nat.findGreatest n.QuorumAt n.log.length)
      else n.commitIndex := by
  have hidx : configQuorumReachedIndex n.currentConfig n.matchIndex n.nodeId n.log.length =
      Nat.findGreatest n.QuorumAt n.log.length := configQuorumReachedIndex_eq _ _ _ _
  have hle : Nat.findGreatest n.QuorumAt n.log.length ≤ n.log.length := Nat.findGreatest_le _
  rw [maybeCommit, if_neg (not_not.mpr hs)]
  dsimp only
  rw [hidx]
  by_cases hlt : n.commitIndex < Nat.findGreatest n.QuorumAt n.log.length
  · have hsome := List.getElem?_eq_getElem
      (by omega : Nat.findGreatest n.QuorumAt n.log.length - 1 < n.log.length)
    have hiff : n.OwnTermAt (Nat.findGreatest n.QuorumAt n.log.length) ↔
        ((n.log[Nat.findGreatest n.QuorumAt n.log.length - 1]?).map LogEntry.term).getD 0 =
          n.currentTerm := by
      rw [OwnTermAt, hsome]
      simp only [Option.map_some, Option.getD_some, Option.some.injEq]
      exact ⟨fun h => h.2, fun h => ⟨by omega, h⟩⟩
    rw [if_pos hlt]
    by_cases hown : n.OwnTermAt (Nat.findGreatest n.QuorumAt n.log.length)
    · rw [if_pos (hiff.mp hown), if_pos hown, (applyLogs_extends clock _).commitIndex]
      exact (Nat.max_eq_right hlt.le).symm
    · rw [if_neg fun h => hown (hiff.mpr h), if_neg hown]
  · rw [if_neg hlt, Nat.max_eq_left (Nat.not_lt.mp hlt)]
    split_ifs <;> rfl

/-- `maybe_commit` meets the commit rule: the search neither overflows nor
runs on, it finds the highest index of a quorum, and the commit index moves to
the highest index of a quorum whose entry is of the current term. -/
theorem maybeCommit_commit_rule (clock : Clock) {n : RaftNode} (hs : n.state = .leader)
    (hsorted : TermsSorted n.log) (hterms : ∀ e ∈ n.log, e.term ≤ n.currentTerm) :
    (n.log.length < 2 ^ 63 →
      quorumSearchChecked
          (configQuorumReached n.currentConfig n.matchIndex n.nodeId n.log.length)
          (n.log.length + 1) 1 n.log.length 0 =
        some (configQuorumReachedIndex n.currentConfig n.matchIndex n.nodeId n.log.length)) ∧
      configQuorumReachedIndex n.currentConfig n.matchIndex n.nodeId n.log.length =
        Nat.findGreatest n.QuorumAt n.log.length ∧
      (maybeCommit clock n).commitIndex =
        max n.commitIndex
          (Nat.findGreatest (fun i => n.QuorumAt i ∧ n.OwnTermAt i) n.log.length) := by
  refine ⟨fun hlen => ?_, configQuorumReachedIndex_eq _ _ _ _, ?_⟩
  · exact quorumSearchChecked_eq _ _ 0 (by omega) hlen (by omega)
  · rw [maybeCommit_commitIndex clock hs, findGreatest_quorum_own hsorted hterms]
    split_ifs
    · rfl
    · rw [Nat.max_eq_left (Nat.zero_le _)]

/-- `a` leads term 2 through the change from `a`, `b`, `c` to `a`, `d`, `e`.
The old majority holds entry 3, the new one entry 2. -/
def leaderInJoint : RaftNode :=
  { freshNode "a" ["b", "c", "d", "e"] with
    state := .leader
    currentTerm := 2
    log :=
      [{ term := 1, index := 1, command := .set "x" "1" },
        { term := 2, index := 2, command := .set "x" "2" },
        { term := 2, index := 3, command := .set "x" "3" }]
    matchIndex := fun p => if p = "b" then some 3 else if p = "d" then some 2 else none
    currentConfig := .joint (["a", "b", "c"].map serverAt) (["a", "d", "e"].map serverAt) }

theorem maybeCommit_commit_rule_joint :
    configQuorumReachedIndex leaderInJoint.currentConfig leaderInJoint.matchIndex "a" 3 = 2 ∧
      (maybeCommit someClock leaderInJoint).commitIndex = 2 := by
  have hsorted : TermsSorted leaderInJoint.log := by
    show List.Pairwise (· ≤ ·) [1, 2, 2]
    decide
  obtain ⟨-, hidx, hcommit⟩ := maybeCommit_commit_rule someClock
    (n := leaderInJoint) rfl hsorted (by decide)
  refine ⟨hidx.trans ?_, hcommit.trans ?_⟩ <;> decide

end RaftNode

end OxideKv
