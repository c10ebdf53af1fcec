import Mathlib.Data.List.Destutter
import Mathlib.Data.List.Sort
import OxideKv.Lib.FirstFailure
import OxideKv.Raft.StateMachineSafety

/-!
# The invariant checks of the simulation

The checks of `invariants.rs` read the nodes of a `SimCluster` and report the
first violation they meet.  `assert_invariants` runs all five.

`assertInvariants_eq_pass_iff` says what a pass means: `Safe` is the property
that the checks decide.  `checkElectionSafety_eq_fail_iff` says which violation
is reported.

Texts of violations are part of the values; `Display` is left out.
-/

namespace OxideKv

open Checks LastWrite
open Std (TreeMap)

inductive InvariantViolation where
  | electionSafety (term : Nat) (leaderIds : List String)
  | stateMachineSafety (index : Nat) (nodeA nodeB aCommand bCommand : String)
  | logMatchingProperty (index : Nat) (nodeA nodeB : String) (aTerm bTerm : Nat)
      (aCommand bCommand : String)
  | committedEntryDurability (index : Nat) (nodeId expectedCommand actualCommand : String)
  | twoPhaseCommitAtomicity (txId : String) (perNode : List (String × String))
deriving Repr, DecidableEq

/-- What the checks read of a `SimNode`. -/
structure SimNode where
  id : String
  raft : RaftNode

/-- `SimCluster`: `new_n_nodes` gives every node an id of its own. -/
structure SimCluster where
  nodes : List SimNode
  nodup : (nodes.map SimNode.id).Nodup

/-- `{:?}` of a decision. -/
def TxDecision.fmt : TxDecision → String
  | .commit => "Commit"
  | .abort => "Abort"

/-- `fmt_command`. -/
def fmtCommand : Command → String
  | .set key value => "Set(" ++ key ++ "," ++ value ++ ")"
  | .get key => "Get(" ++ key ++ ")"
  | .delete key => "Delete(" ++ key ++ ")"
  | .compact => "Compact"
  | .beginTx txId ops => "BeginTx(" ++ txId ++ ", " ++ toString ops.length ++ " ops)"
  | .decideTx txId decision => "DecideTx(" ++ txId ++ "," ++ decision.fmt ++ ")"
  | .addNode server => "AddNode(" ++ server.nodeId ++ "," ++ server.addr ++ ")"
  | .removeNode nodeId => "RemoveNode(" ++ nodeId ++ ")"
  | .installConfiguration (.simple servers) =>
      "InstallConfiguration(Simple," ++ toString servers.length ++ " servers)"
  | .installConfiguration (.joint old new) =>
      "InstallConfiguration(Joint, old:" ++ toString old.length ++ " new:" ++
        toString new.length ++ ")"
  | .abortTx txId => "AbortTx(" ++ txId ++ ")"

namespace SimCluster

/-! ## The checks -/

/-- The ids of the leaders, each under its term. -/
def leaders (c : SimCluster) : List (Nat × String) :=
  (c.nodes.filter fun n => n.raft.state = .leader).map fun n => (n.raft.currentTerm, n.id)

/-- `check_election_safety`. -/
def checkElectionSafety (c : SimCluster) : Verdict InvariantViolation :=
  forEach
    (fun e => if 1 < e.2.length then .fail (.electionSafety e.1 e.2) else .pass)
    (groupByKey c.leaders).toList

/-- The walk of two logs that the checks of the pairs share.  An index behind
the end of a log panics. -/
def walkLogs (same : LogEntry → LogEntry → Bool)
    (report : Nat → LogEntry → LogEntry → InvariantViolation) (limit : Nat)
    (la lb : List LogEntry) : Verdict InvariantViolation :=
  forEach
    (fun k =>
      match la[k]?, lb[k]? with
      | some ea, some eb => if same ea eb then .pass else .fail (report (k + 1) ea eb)
      | _, _ => .panic)
    (List.range limit)

/-- `check_log_matching_property`. -/
def checkLogMatchingProperty (c : SimCluster) : Verdict InvariantViolation :=
  forPairs
    (fun a b =>
      walkLogs (fun ea eb => ea.term == eb.term && ea.command == eb.command)
        (fun index ea eb =>
          .logMatchingProperty index a.id b.id ea.term eb.term (fmtCommand ea.command)
            (fmtCommand eb.command))
        (min a.raft.commitIndex b.raft.commitIndex) a.raft.log b.raft.log)
    c.nodes

/-- `check_state_machine_safety`. -/
def checkStateMachineSafety (c : SimCluster) : Verdict InvariantViolation :=
  forPairs
    (fun a b =>
      walkLogs (fun ea eb => ea.command == eb.command)
        (fun index ea eb =>
          .stateMachineSafety index a.id b.id (fmtCommand ea.command) (fmtCommand eb.command))
        (min a.raft.lastApplied b.raft.lastApplied) a.raft.log b.raft.log)
    c.nodes

/-- The lowest commit index, `u64::MAX` of no nodes. -/
def minCommit (nodes : List SimNode) : Nat :=
  nodes.foldl (fun m n => if n.raft.commitIndex < m then n.raft.commitIndex else m) (2 ^ 64 - 1)

/-- The position of the first node with the highest commit index. -/
def refIdx (nodes : List SimNode) : Nat :=
  (nodes.zipIdx.foldl
    (fun best x => if best.2 < x.1.raft.commitIndex then (x.2, x.1.raft.commitIndex) else best)
    (0, 0)).1

/-- The expected commands against the log of one node. -/
def compareWith (refLog : List String) (n : SimNode) : Verdict InvariantViolation :=
  forEach
    (fun expected =>
      match n.raft.log[expected.2]? with
      | none => .fail (.committedEntryDurability (expected.2 + 1) n.id expected.1 "<missing>")
      | some entry =>
          if fmtCommand entry.command = expected.1 then .pass
          else .fail (.committedEntryDurability (expected.2 + 1) n.id expected.1
            (fmtCommand entry.command)))
    refLog.zipIdx

/-- The committed part of the log of the reference node, as it is printed. -/
def refLog (nodes : List SimNode) (ref : SimNode) : List String :=
  (ref.raft.log.take (minCommit nodes)).map fun e => fmtCommand e.command

/-- `check_committed_entry_durability`. -/
def checkCommittedEntryDurability (c : SimCluster) : Verdict InvariantViolation :=
  if c.nodes.isEmpty then .pass
  else if minCommit c.nodes = 2 ^ 64 - 1 then .pass
  else
    match c.nodes[refIdx c.nodes]? with
    | none => .panic
    | some ref =>
        forEach
          (fun x => if x.2 = refIdx c.nodes then .pass else compareWith (refLog c.nodes ref) x.1)
          c.nodes.zipIdx

/-- One entry in the scan for decisions. -/
def recordDecision (nodeId : String) (m : TreeMap String (TreeMap String (Nat × String)))
    (entry : LogEntry) : TreeMap String (TreeMap String (Nat × String)) :=
  match entry.command with
  | .decideTx txId decision =>
      m.insert txId ((m[txId]?.getD ∅).insert nodeId (entry.term, decision.fmt))
  | _ => m

/-- The last decision on each transaction in the log of each node. -/
def txDecisions (nodes : List SimNode) : TreeMap String (TreeMap String (Nat × String)) :=
  nodes.foldl (fun m n => n.raft.log.foldl (recordDecision n.id) m) ∅

/-- The different outcomes among the decisions of the nodes. -/
def outcomes (perNode : TreeMap String (Nat × String)) : List String :=
  ((perNode.toList.map fun x => x.2.2).insertionSort (· ≤ ·)).destutter (· ≠ ·)

/-- `check_2pc_atomicity`. -/
def check2pcAtomicity (c : SimCluster) : Verdict InvariantViolation :=
  if c.nodes.isEmpty then .pass
  else
    forEach
      (fun e =>
        if 1 < (outcomes e.2).length then
          .fail (.twoPhaseCommitAtomicity e.1 (e.2.toList.map fun x => (x.1, x.2.2)))
        else .pass)
      (txDecisions c.nodes).toList

/-- `assert_invariants`. -/
def assertInvariants (c : SimCluster) : Verdict InvariantViolation :=
  (checkElectionSafety c).andThen <|
  (checkLogMatchingProperty c).andThen <|
  (checkStateMachineSafety c).andThen <|
  (checkCommittedEntryDurability c).andThen <|
  check2pcAtomicity c

/-! ## What the checks decide -/

/-- Both logs reach position `m`, and `f` is the same of their entries up to
there. -/
def AgreeUpTo {β : Type} (f : LogEntry → β) (m : Nat) (la lb : List LogEntry) : Prop :=
  m ≤ la.length ∧ m ≤ lb.length ∧ (la.take m).map f = (lb.take m).map f

/-- The decisions in a log, each with the term of its entry. -/
def decisions (log : List LogEntry) : List (String × (Nat × TxDecision)) :=
  log.filterMap fun e =>
    match e.command with
    | .decideTx txId decision => some (txId, (e.term, decision))
    | _ => none

/-- The last decision on a transaction in a log. -/
def lastDecision (log : List LogEntry) (txId : String) : Option TxDecision :=
  (record (decisions log) txId).map Prod.snd

/-- The property that `assert_invariants` decides. -/
structure Safe (c : SimCluster) : Prop where
  elections : c.nodes.Pairwise fun a b =>
    a.raft.state = .leader → b.raft.state = .leader → a.raft.currentTerm ≠ b.raft.currentTerm
  logs : c.nodes.Pairwise fun a b =>
    AgreeUpTo (fun e => (e.term, e.command)) (min a.raft.commitIndex b.raft.commitIndex)
      a.raft.log b.raft.log
  applied : c.nodes.Pairwise fun a b =>
    AgreeUpTo LogEntry.command (min a.raft.lastApplied b.raft.lastApplied) a.raft.log b.raft.log
  durable : minCommit c.nodes = 2 ^ 64 - 1 ∨ ∀ ref, c.nodes[refIdx c.nodes]? = some ref →
    ∀ n ∈ c.nodes, refLog c.nodes ref <+: n.raft.log.map fun e => fmtCommand e.command
  decided : ∀ a ∈ c.nodes, ∀ b ∈ c.nodes, ∀ txId d d',
    lastDecision a.raft.log txId = some d → lastDecision b.raft.log txId = some d' → d = d'

/-! ### Election safety -/

/-- The leaders of a term, in the order of the nodes. -/
def leadersOf (c : SimCluster) (term : Nat) : List SimNode :=
  c.nodes.filter fun n => n.raft.state = .leader ∧ n.raft.currentTerm = term

theorem valuesOf_leaders (c : SimCluster) (term : Nat) :
    valuesOf term c.leaders = (c.leadersOf term).map SimNode.id := by
  unfold valuesOf leaders leadersOf
  rw [List.filter_map, List.filter_filter, List.map_map]
  congr 1
  apply List.filter_congr
  intro n _
  simp [Function.comp, and_comm]

/-- A violation that is reported is the first one: of the lowest term with two
leaders, with all its leaders in the order of the nodes. -/
theorem checkElectionSafety_eq_fail_iff (c : SimCluster) (v : InvariantViolation) :
    checkElectionSafety c = .fail v ↔ ∃ term,
      v = .electionSafety term ((c.leadersOf term).map SimNode.id) ∧
      1 < (c.leadersOf term).length ∧
      ∀ term' < term, (c.leadersOf term').length ≤ 1 := by
  unfold checkElectionSafety
  rw [forEach_toList_eq_iff (by simp)]
  have hgroup : ∀ {term : Nat} {ids : List String}, (groupByKey c.leaders)[term]? = some ids →
      ids = (c.leadersOf term).map SimNode.id := by
    intro term ids h
    rw [← valuesOf_leaders]
    exact (groupByKey_eq_some_iff.mp h).1
  constructor
  · rintro ⟨term, ids, hids, hcheck, hlow⟩
    obtain rfl := hgroup hids
    dsimp only at hcheck
    split_ifs at hcheck with hlen
    rw [List.length_map] at hlen
    refine ⟨term, (Verdict.fail.inj hcheck).symm, hlen, fun term' hlt => ?_⟩
    by_contra hmany
    have hne : (c.leadersOf term').map SimNode.id ≠ [] := by
      rw [Ne, List.map_eq_nil_iff]
      intro hnil
      rw [hnil] at hmany
      exact hmany (Nat.zero_le 1)
    have hrow := groupByKey_eq_some_iff.mpr ⟨(valuesOf_leaders c term').symm, hne⟩
    have hpass := hlow term' _ (Nat.compare_eq_lt.mpr hlt) hrow
    dsimp only at hpass
    rw [if_pos (by rw [List.length_map]; omega)] at hpass
    cases hpass
  · rintro ⟨term, rfl, hlen, hlow⟩
    have hne : (c.leadersOf term).map SimNode.id ≠ [] := by
      rw [Ne, List.map_eq_nil_iff]
      intro hnil
      rw [hnil] at hlen
      exact absurd hlen (by simp)
    refine ⟨term, _, groupByKey_eq_some_iff.mpr ⟨(valuesOf_leaders c term).symm, hne⟩, ?_,
      fun term' ids hlt hids => ?_⟩
    · dsimp only
      rw [if_pos (by rw [List.length_map]; exact hlen)]
    · obtain rfl := hgroup hids
      have hle := hlow term' (Nat.compare_eq_lt.mp hlt)
      dsimp only
      rw [if_neg (by rw [List.length_map]; omega)]

theorem checkElectionSafety_eq_pass_iff (c : SimCluster) :
    checkElectionSafety c = .pass ↔ c.nodes.Pairwise fun a b =>
      a.raft.state = .leader → b.raft.state = .leader →
        a.raft.currentTerm ≠ b.raft.currentTerm := by
  have hfew : checkElectionSafety c = .pass ↔ ∀ term, (c.leadersOf term).length ≤ 1 := by
    unfold checkElectionSafety
    rw [forEach_toList_eq_pass_iff]
    constructor
    · intro h term
      by_contra hmany
      have hne : valuesOf term c.leaders ≠ [] := by
        rw [valuesOf_leaders, Ne, List.map_eq_nil_iff]
        intro hnil
        rw [hnil] at hmany
        exact hmany (Nat.zero_le 1)
      have hpass := h term _ (groupByKey_eq_some_iff.mpr ⟨rfl, hne⟩)
      dsimp only at hpass
      rw [valuesOf_leaders, if_pos (by rw [List.length_map]; omega)] at hpass
      cases hpass
    · intro h term ids hids
      obtain ⟨rfl, -⟩ := groupByKey_eq_some_iff.mp hids
      have hle := h term
      dsimp only
      rw [valuesOf_leaders, if_neg (by rw [List.length_map]; omega)]
  rw [hfew]
  constructor
  · intro h
    rw [List.pairwise_iff_forall_sublist]
    intro a b hsub ha hb hterm
    have hpair : [a, b].Sublist (c.leadersOf a.raft.currentTerm) := by
      have hfilter := hsub.filter fun n =>
        decide (n.raft.state = .leader ∧ n.raft.currentTerm = a.raft.currentTerm)
      rw [List.filter_eq_self.mpr (by simp [ha, hb, hterm])] at hfilter
      exact hfilter
    have hlen := hpair.length_le
    have hle := h a.raft.currentTerm
    simp only [List.length_cons, List.length_nil] at hlen
    omega
  · intro h term
    by_contra hmany
    obtain ⟨a, b, rest, heq⟩ : ∃ a b rest, c.leadersOf term = a :: b :: rest := by
      cases hl : c.leadersOf term with
      | nil => simp [hl] at hmany
      | cons a rest =>
        cases rest with
        | nil => simp [hl] at hmany
        | cons b rest => exact ⟨a, b, rest, rfl⟩
    have hsub : [a, b].Sublist c.nodes := by
      refine List.Sublist.trans ?_ (List.filter_sublist (p := fun n =>
        decide (n.raft.state = .leader ∧ n.raft.currentTerm = term)))
      show [a, b].Sublist (c.leadersOf term)
      rw [heq]
      exact ((List.nil_sublist rest).cons_cons b).cons_cons a
    have hleads : ∀ n ∈ c.leadersOf term,
        n.raft.state = .leader ∧ n.raft.currentTerm = term := by
      intro n hn
      simpa using (List.mem_filter.mp hn).2
    obtain ⟨ha, hta⟩ := hleads a (by simp [heq])
    obtain ⟨hb, htb⟩ := hleads b (by simp [heq])
    exact List.pairwise_iff_forall_sublist.mp h hsub ha hb (hta.trans htb.symm)

/-! ### The logs, pair by pair -/

/-- A walk passes when both logs are long enough and agree on what is
compared. -/
theorem walkLogs_eq_pass_iff {β : Type} {f : LogEntry → β} {same : LogEntry → LogEntry → Bool}
    (hsame : ∀ ea eb, same ea eb = true ↔ f ea = f eb)
    (report : Nat → LogEntry → LogEntry → InvariantViolation) (limit : Nat)
    (la lb : List LogEntry) :
    walkLogs same report limit la lb = .pass ↔ AgreeUpTo f limit la lb := by
  unfold walkLogs AgreeUpTo
  rw [forEach_eq_pass_iff]
  have hstep : ∀ k, (match la[k]?, lb[k]? with
      | some ea, some eb => if same ea eb then Verdict.pass else .fail (report (k + 1) ea eb)
      | _, _ => .panic) = .pass ↔ ∃ ea eb, la[k]? = some ea ∧ lb[k]? = some eb ∧ f ea = f eb := by
    intro k
    cases la[k]? with
    | none => simp
    | some ea =>
      cases lb[k]? with
      | none => simp
      | some eb =>
        by_cases h : f ea = f eb
        · simp [(hsame ea eb).mpr h, h]
        · have hne : same ea eb = false := by
            rw [← Bool.not_eq_true, hsame]
            exact h
          simp [hne, h]
  simp only [List.mem_range, hstep]
  constructor
  · intro h
    have hlen : ∀ {l : List LogEntry}, (∀ k < limit, ∃ e, l[k]? = some e) → limit ≤ l.length := by
      intro l hl
      by_contra hlt
      obtain ⟨e, he⟩ := hl l.length (by omega)
      rw [List.getElem?_eq_none le_rfl] at he
      cases he
    refine ⟨hlen fun k hk => ?_, hlen fun k hk => ?_, ?_⟩
    · obtain ⟨ea, -, hea, -⟩ := h k hk
      exact ⟨ea, hea⟩
    · obtain ⟨-, eb, -, heb, -⟩ := h k hk
      exact ⟨eb, heb⟩
    · apply List.ext_getElem?
      intro k
      rw [List.getElem?_map, List.getElem?_map, List.getElem?_take, List.getElem?_take]
      split_ifs with hk
      · obtain ⟨ea, eb, hea, heb, heq⟩ := h k hk
        rw [hea, heb, Option.map_some, Option.map_some, heq]
      · rfl
  · rintro ⟨hla, hlb, heq⟩ k hk
    refine ⟨la[k], lb[k], List.getElem?_eq_getElem _, List.getElem?_eq_getElem _, ?_⟩
    have hget := congrArg (·[k]?) heq
    simp only [List.getElem?_map, List.getElem?_take_of_lt hk] at hget
    rw [List.getElem?_eq_getElem (by omega), List.getElem?_eq_getElem (by omega)] at hget
    exact Option.some.inj hget

theorem checkLogMatchingProperty_eq_pass_iff (c : SimCluster) :
    checkLogMatchingProperty c = .pass ↔ c.nodes.Pairwise fun a b =>
      AgreeUpTo (fun e => (e.term, e.command)) (min a.raft.commitIndex b.raft.commitIndex)
        a.raft.log b.raft.log := by
  unfold checkLogMatchingProperty
  rw [forPairs_eq_pass_iff]
  have hsame : ∀ ea eb : LogEntry, (ea.term == eb.term && ea.command == eb.command) = true ↔
      (ea.term, ea.command) = (eb.term, eb.command) := by simp
  simp only [walkLogs_eq_pass_iff (f := fun e => (e.term, e.command)) hsame]

theorem checkStateMachineSafety_eq_pass_iff (c : SimCluster) :
    checkStateMachineSafety c = .pass ↔ c.nodes.Pairwise fun a b =>
      AgreeUpTo LogEntry.command (min a.raft.lastApplied b.raft.lastApplied)
        a.raft.log b.raft.log := by
  unfold checkStateMachineSafety
  rw [forPairs_eq_pass_iff]
  have hsame : ∀ ea eb : LogEntry, (ea.command == eb.command) = true ↔
      ea.command = eb.command := by simp
  simp only [walkLogs_eq_pass_iff hsame]

/-! ### Committed entries -/

theorem compareWith_eq_pass_iff (expected : List String) (n : SimNode) :
    compareWith expected n = .pass ↔ expected <+: n.raft.log.map fun e => fmtCommand e.command := by
  unfold compareWith
  rw [forEach_eq_pass_iff, List.prefix_iff_getElem?]
  constructor
  · intro h i hi
    have hpass := h (expected[i], i) (List.mem_zipIdx_iff_getElem?.mpr (by simp))
    dsimp only at hpass
    rw [List.getElem?_map]
    cases hget : n.raft.log[i]? with
    | none =>
      rw [hget] at hpass
      cases hpass
    | some entry =>
      rw [hget] at hpass
      dsimp only at hpass
      split_ifs at hpass with heq
      rw [Option.map_some, heq]
  · rintro h ⟨command, i⟩ hmem
    have hi : expected[i]? = some command := List.mem_zipIdx_iff_getElem?.mp hmem
    obtain ⟨hlt, hcommand⟩ := List.getElem?_eq_some_iff.mp hi
    have hget := h i hlt
    rw [List.getElem?_map, Option.map_eq_some_iff, hcommand] at hget
    obtain ⟨entry, hentry, heq⟩ := hget
    dsimp only
    rw [hentry]
    dsimp only
    rw [if_pos heq]

/-- The reference node is one of the nodes. -/
theorem refIdx_lt {nodes : List SimNode} (h : nodes ≠ []) : refIdx nodes < nodes.length := by
  have hfold : ∀ (rest : List (SimNode × Nat)) (best : Nat × Nat),
      (∀ x ∈ rest, x.2 < nodes.length) → best.1 < nodes.length →
      (rest.foldl (fun best x =>
        if best.2 < x.1.raft.commitIndex then (x.2, x.1.raft.commitIndex) else best) best).1 <
        nodes.length := by
    intro rest
    induction rest with
    | nil => exact fun _ _ hbest => hbest
    | cons x rest ih =>
      intro best hrest hbest
      rw [List.foldl_cons]
      refine ih _ (fun y hy => hrest y (List.mem_cons_of_mem x hy)) ?_
      split_ifs
      · exact hrest x List.mem_cons_self
      · exact hbest
  refine hfold _ _ (fun x hx => ?_) (List.length_pos_of_ne_nil h)
  exact (List.mem_zipIdx' hx).1

theorem checkCommittedEntryDurability_eq_pass_iff (c : SimCluster) :
    checkCommittedEntryDurability c = .pass ↔
      minCommit c.nodes = 2 ^ 64 - 1 ∨ ∀ ref, c.nodes[refIdx c.nodes]? = some ref →
        ∀ n ∈ c.nodes, refLog c.nodes ref <+: n.raft.log.map fun e => fmtCommand e.command := by
  unfold checkCommittedEntryDurability
  by_cases hempty : c.nodes = []
  · simp [hempty]
  have hlt := refIdx_lt hempty
  rw [if_neg (by simpa using hempty)]
  split_ifs with hmin
  · simp [hmin]
  · rw [List.getElem?_eq_getElem hlt]
    dsimp only
    rw [forEach_eq_pass_iff]
    simp only [hmin, false_or, Option.some.injEq, forall_eq']
    constructor
    · intro h n hn
      obtain ⟨i, hi, rfl⟩ := List.getElem_of_mem hn
      by_cases href : i = refIdx c.nodes
      · subst href
        exact ((List.take_prefix _ _).map _)
      · have hpass := h (c.nodes[i], i) (List.mem_zipIdx_iff_getElem?.mpr (by simp))
        dsimp only at hpass
        rw [if_neg href, compareWith_eq_pass_iff] at hpass
        exact hpass
    · rintro h ⟨n, i⟩ hmem
      dsimp only
      split_ifs
      · rfl
      · have hi := List.mem_zipIdx_iff_getElem?.mp hmem
        exact (compareWith_eq_pass_iff _ _).mpr (h n (List.mem_of_getElem? hi))

/-! ### Decisions -/

/-- Dropping repetitions leaves more than one value only of a list with two
different ones. -/
theorem one_lt_length_destutter_iff {l : List String} :
    1 < (l.destutter (· ≠ ·)).length ↔ ∃ a ∈ l, ∃ b ∈ l, a ≠ b := by
  constructor
  · intro h
    have hchain := List.isChain_destutter (· ≠ ·) l
    have hsub := List.destutter_sublist (· ≠ ·) l
    cases hl : l.destutter (· ≠ ·) with
    | nil => simp [hl] at h
    | cons a rest =>
      cases rest with
      | nil => simp [hl] at h
      | cons b rest =>
        rw [hl] at hchain hsub
        exact ⟨a, hsub.subset (by simp), b, hsub.subset (by simp), by simpa using hchain.rel⟩
  · rintro ⟨a, ha, b, hb, hab⟩
    have hmem : ∀ {l : List String} {x y : String}, x ∈ y :: l → x ∈ l.destutter' (· ≠ ·) y := by
      intro l
      induction l with
      | nil => exact fun h => h
      | cons z l ih =>
        intro x y hx
        rw [List.destutter'_cons]
        split_ifs with hyz
        · rcases List.mem_cons.mp hx with rfl | hx
          · exact List.mem_cons_self
          · exact List.mem_cons_of_mem _ (ih hx)
        · obtain rfl := not_not.mp hyz
          exact ih (by simpa using hx)
    cases l with
    | nil => cases ha
    | cons y l =>
      have ha' := hmem ha
      have hb' := hmem hb
      rw [List.destutter_cons']
      cases hl : l.destutter' (· ≠ ·) y with
      | nil => simp [hl] at ha'
      | cons c rest =>
        cases rest with
        | nil =>
          rw [hl, List.mem_singleton] at ha' hb'
          exact absurd (ha'.trans hb'.symm) hab
        | cons d rest => simp

theorem fmt_inj {d d' : TxDecision} : d.fmt = d'.fmt ↔ d = d' := by
  cases d <;> cases d' <;> decide

/-- What the scan has on record for a node and a transaction. -/
def recorded (m : TreeMap String (TreeMap String (Nat × String))) (txId id : String) :
    Option (Nat × String) :=
  (m[txId]?.getD ∅)[id]?

/-- The decision that a log is scanned for, as it is recorded. -/
def scanned (log : List LogEntry) (txId : String) : Option (Nat × String) :=
  (record (decisions log) txId).map fun d => (d.1, d.2.fmt)

theorem recorded_insert (m : TreeMap String (TreeMap String (Nat × String)))
    (txId' nodeId : String) (d : Nat × String) (txId id : String) :
    recorded (m.insert txId' ((m[txId']?.getD ∅).insert nodeId d)) txId id =
      if txId' = txId ∧ nodeId = id then some d else recorded m txId id := by
  unfold recorded
  rw [TreeMap.getElem?_insert]
  by_cases htx : txId' = txId
  · subst htx
    by_cases hid : nodeId = id <;> simp [TreeMap.getElem?_insert, hid]
  · simp [htx]

/-- The scan of one log. -/
theorem recorded_log (nodeId txId id : String) (log : List LogEntry) :
    ∀ m, recorded (log.foldl (recordDecision nodeId) m) txId id =
      if nodeId = id then (scanned log txId).or (recorded m txId id) else recorded m txId id := by
  induction log with
  | nil =>
    intro m
    simp [scanned, decisions]
  | cons e log ih =>
    intro m
    rw [List.foldl_cons, ih]
    have hother : ∀ m', recordDecision nodeId m e = m' → decisions (e :: log) = decisions log →
        recorded m' txId id = recorded m txId id →
        (if nodeId = id then (scanned log txId).or (recorded (recordDecision nodeId m e) txId id)
          else recorded (recordDecision nodeId m e) txId id) =
          if nodeId = id then (scanned (e :: log) txId).or (recorded m txId id)
          else recorded m txId id := by
      intro m' hm hdec hrec
      rw [hm, hrec, scanned, scanned, hdec]
    cases hcmd : e.command with
    | decideTx txId' decision =>
      have hdec : decisions (e :: log) = (txId', (e.term, decision)) :: decisions log := by
        simp [decisions, hcmd]
      have hscan : scanned (e :: log) txId = (scanned log txId).or
          (if txId' = txId then some (e.term, decision.fmt) else none) := by
        rw [scanned, scanned, hdec, record_cons, Option.map_or]
        by_cases htx : txId' = txId <;> simp [htx]
      have hrec : recordDecision nodeId m e =
          m.insert txId' ((m[txId']?.getD ∅).insert nodeId (e.term, decision.fmt)) := by
        simp [recordDecision, hcmd]
      rw [hrec, recorded_insert, hscan]
      by_cases hid : nodeId = id
      · by_cases htx : txId' = txId <;> simp [hid, htx]
      · simp [hid]
    | _ => exact hother m (by simp [recordDecision, hcmd]) (by simp [decisions, hcmd]) rfl

theorem recorded_nodes_of_not_mem {txId id : String} (nodes : List SimNode) :
    ∀ m, id ∉ nodes.map SimNode.id →
      recorded (nodes.foldl (fun m n => n.raft.log.foldl (recordDecision n.id) m) m) txId id =
        recorded m txId id := by
  induction nodes with
  | nil => exact fun _ _ => rfl
  | cons n nodes ih =>
    intro m hid
    rw [List.map_cons, List.mem_cons, not_or] at hid
    rw [List.foldl_cons, ih _ hid.2, recorded_log, if_neg (Ne.symm hid.1)]

/-- The scan records for each node the last decision in its log. -/
theorem recorded_nodes {txId : String} {n : SimNode} (nodes : List SimNode) :
    ∀ m, (nodes.map SimNode.id).Nodup → n ∈ nodes → recorded m txId n.id = none →
      recorded (nodes.foldl (fun m n => n.raft.log.foldl (recordDecision n.id) m) m) txId n.id =
        scanned n.raft.log txId := by
  induction nodes with
  | nil => exact fun _ _ hn => by cases hn
  | cons x nodes ih =>
    intro m hnodup hn hnone
    rw [List.map_cons, List.nodup_cons] at hnodup
    rw [List.foldl_cons]
    rcases List.mem_cons.mp hn with rfl | hn
    · rw [recorded_nodes_of_not_mem _ _ hnodup.1, recorded_log, if_pos rfl, hnone, Option.or_none]
    · have hne : x.id ≠ n.id := fun heq => hnodup.1 (heq ▸ List.mem_map_of_mem hn)
      refine ih _ hnodup.2 hn ?_
      rw [recorded_log, if_neg hne]
      exact hnone

theorem recorded_empty (txId id : String) : recorded ∅ txId id = none := by
  simp [recorded]

theorem recorded_txDecisions_iff (c : SimCluster) {txId id : String} {d : Nat × String} :
    recorded (txDecisions c.nodes) txId id = some d ↔
      ∃ n ∈ c.nodes, n.id = id ∧ scanned n.raft.log txId = some d := by
  unfold txDecisions
  constructor
  · intro h
    by_cases hid : id ∈ c.nodes.map SimNode.id
    · obtain ⟨n, hn, rfl⟩ := List.mem_map.mp hid
      rw [recorded_nodes c.nodes ∅ c.nodup hn (recorded_empty _ _)] at h
      exact ⟨n, hn, rfl, h⟩
    · rw [recorded_nodes_of_not_mem _ _ hid, recorded_empty] at h
      cases h
  · rintro ⟨n, hn, rfl, h⟩
    rw [recorded_nodes c.nodes ∅ c.nodup hn (recorded_empty _ _)]
    exact h

theorem lastDecision_eq_some_iff {log : List LogEntry} {txId : String} {d : TxDecision} :
    lastDecision log txId = some d ↔ ∃ term, scanned log txId = some (term, d.fmt) := by
  unfold lastDecision scanned
  cases record (decisions log) txId with
  | none => simp
  | some x => simp [fmt_inj, Prod.ext_iff]

theorem check2pcAtomicity_eq_pass_iff (c : SimCluster) :
    check2pcAtomicity c = .pass ↔ ∀ a ∈ c.nodes, ∀ b ∈ c.nodes, ∀ txId d d',
      lastDecision a.raft.log txId = some d → lastDecision b.raft.log txId = some d' → d = d' := by
  unfold check2pcAtomicity
  by_cases hempty : c.nodes = []
  · simp [hempty]
  rw [if_neg (by simpa using hempty), forEach_toList_eq_pass_iff]
  have hrow : ∀ {txId : String} {perNode : TreeMap String (Nat × String)} {id : String}
      {d : Nat × String}, (txDecisions c.nodes)[txId]? = some perNode →
      ((id, d) ∈ perNode.toList ↔
        ∃ n ∈ c.nodes, n.id = id ∧ scanned n.raft.log txId = some d) := by
    intro txId perNode id d hper
    rw [← recorded_txDecisions_iff, TreeMap.mem_toList_iff_getElem?_eq_some, recorded, hper]
    rfl
  have hout : ∀ perNode : TreeMap String (Nat × String), 1 < (outcomes perNode).length ↔
      ∃ x ∈ perNode.toList, ∃ y ∈ perNode.toList, x.2.2 ≠ y.2.2 := by
    intro perNode
    unfold outcomes
    rw [one_lt_length_destutter_iff]
    simp only [List.mem_insertionSort, List.mem_map]
    constructor
    · rintro ⟨-, ⟨x, hx, rfl⟩, -, ⟨y, hy, rfl⟩, hne⟩
      exact ⟨x, hx, y, hy, hne⟩
    · rintro ⟨x, hx, y, hy, hne⟩
      exact ⟨x.2.2, ⟨x, hx, rfl⟩, y.2.2, ⟨y, hy, rfl⟩, hne⟩
  constructor
  · intro h a ha b hb txId d d' hd hd'
    obtain ⟨term, hscan⟩ := lastDecision_eq_some_iff.mp hd
    obtain ⟨term', hscan'⟩ := lastDecision_eq_some_iff.mp hd'
    have hrec := (recorded_txDecisions_iff c).mpr ⟨a, ha, rfl, hscan⟩
    cases hper : (txDecisions c.nodes)[txId]? with
    | none =>
      rw [recorded, hper] at hrec
      simp at hrec
    | some perNode =>
      have hpass := h txId perNode hper
      dsimp only at hpass
      split_ifs at hpass with hlen
      by_contra hne
      refine hlen ((hout perNode).mpr ⟨(a.id, (term, d.fmt)), ?_, (b.id, (term', d'.fmt)), ?_, ?_⟩)
      · exact (hrow hper).mpr ⟨a, ha, rfl, hscan⟩
      · exact (hrow hper).mpr ⟨b, hb, rfl, hscan'⟩
      · exact fun heq => hne (fmt_inj.mp heq)
  · intro h txId perNode hper
    dsimp only
    rw [if_neg]
    rw [hout]
    rintro ⟨⟨id, term, s⟩, hx, ⟨id', term', s'⟩, hy, hne⟩
    obtain ⟨a, ha, -, hscan⟩ := (hrow hper).mp hx
    obtain ⟨b, hb, -, hscan'⟩ := (hrow hper).mp hy
    have hfmt : ∀ {log : List LogEntry} {t : Nat} {s : String}, scanned log txId = some (t, s) →
        ∃ d, lastDecision log txId = some d ∧ s = d.fmt := by
      intro log t s hs
      obtain ⟨x, hx, heq⟩ := Option.map_eq_some_iff.mp hs
      obtain ⟨-, rfl⟩ := Prod.mk.inj heq
      exact ⟨x.2, by rw [lastDecision, hx]; rfl, rfl⟩
    obtain ⟨d, hd, rfl⟩ := hfmt hscan
    obtain ⟨d', hd', rfl⟩ := hfmt hscan'
    exact hne (congrArg TxDecision.fmt (h a ha b hb txId d d' hd hd'))

/-! ### All five -/

/-- `assert_invariants` passes on the clusters that are safe, and on no
other. -/
theorem assertInvariants_eq_pass_iff (c : SimCluster) : assertInvariants c = .pass ↔ Safe c := by
  unfold assertInvariants
  simp only [Verdict.andThen_eq_pass_iff, checkElectionSafety_eq_pass_iff,
    checkLogMatchingProperty_eq_pass_iff, checkStateMachineSafety_eq_pass_iff,
    checkCommittedEntryDurability_eq_pass_iff, check2pcAtomicity_eq_pass_iff]
  constructor
  · rintro ⟨h₁, h₂, h₃, h₄, h₅⟩
    exact ⟨h₁, h₂, h₃, h₄, h₅⟩
  · rintro ⟨h₁, h₂, h₃, h₄, h₅⟩
    exact ⟨h₁, h₂, h₃, h₄, h₅⟩

end SimCluster

end OxideKv
