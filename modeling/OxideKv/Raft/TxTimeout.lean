import OxideKv.Raft.LogCommands
import OxideKv.Raft.TxSteps
import OxideKv.Raft.TxVotes

/-!
# Transactions that time out

`run_tx_timeout_loop` of `coordinator.rs` runs on every node.  After each sleep
it looks whether the node leads, lists the transactions that have been in flight
for too long, and proposes to abort one after the other.  Each of these takes
the lock on its own, so the rest of the cluster goes on in between.

* `sweep_decides`: when the node has led during a pass, every transaction of its
  list has a decision in the log, behind what was applied at the time of the
  list.
* `sweep_clears`: and a node that has applied this log holds none of them any
  more, but for those that are begun again.
-/

namespace OxideKv

open RaftNode Run

/-- `pending_txs_older_than`. -/
def StateMachine.pendingTxsOlderThan (nowUnixMs thresholdMs : Nat) (sm : StateMachine) :
    List String :=
  (sm.pendingTxs.toList.filter fun p => thresholdMs < nowUnixMs - p.2.beginUnixMs).map Prod.fst

theorem StateMachine.isTxPending_of_mem {nowUnixMs thresholdMs : Nat} {sm : StateMachine}
    {txId : String} (h : txId ∈ sm.pendingTxsOlderThan nowUnixMs thresholdMs) :
    sm.isTxPending txId = true := by
  obtain ⟨⟨id, tx⟩, hmem, rfl⟩ := List.mem_map.mp h
  have htx := Std.TreeMap.mem_toList_iff_getElem?_eq_some.mp (List.mem_filter.mp hmem).1
  rw [isTxPending, Std.TreeMap.contains_eq_isSome_getElem?, htx]
  rfl

inductive SweepPhase where
  | sleeping
  /-- The node was the leader. -/
  | listing
  /-- The transactions that are left. -/
  | aborting (txId : String) (rest : List String)
deriving Repr, DecidableEq

namespace SweepPhase

/-- The loop over the list. -/
def next : List String → SweepPhase
  | [] => .sleeping
  | txId :: rest => .aborting txId rest

def remaining : SweepPhase → List String
  | .aborting txId rest => txId :: rest
  | _ => []

@[simp] theorem remaining_next (order : List String) : (next order).remaining = order := by
  cases order <;> rfl

end SweepPhase

/-- A cluster whose nodes run the loop. -/
structure SweepCluster where
  base : Cluster
  sweeps : String → SweepPhase

inductive SweepEvent where
  | base (e : Event)
  /-- The sleep is over. -/
  | tick (p : String)
  /-- The list, in the order of the map. -/
  | list (p : String) (nowUnixMs : Nat) (order : List String)
  /-- `propose_abort_tx` on the next transaction. -/
  | abort (p : String)

/-- The loop of `p` begins a pass. -/
def SweepEvent.begins (p : String) : SweepEvent → Bool
  | .tick q => q == p
  | _ => false

namespace SweepCluster

variable (thresholdMs : Nat) (m : Membership)

def setSweep (p : String) (phase : SweepPhase) (s : SweepCluster) : SweepCluster :=
  { s with sweeps := Function.update s.sweeps p phase }

def step (s : SweepCluster) : SweepEvent → Option SweepCluster
  | .base e =>
      (s.base.step m e).map fun base =>
        match e with
        | .restart p _ => setSweep p .sleeping { s with base := base }
        | _ => { s with base := base }
  | .tick p =>
      match s.sweeps p with
      | .sleeping =>
          some (s.setSweep p
            (if (s.base.nodes p).state = .leader then .listing else .sleeping))
      | _ => none
  | .list p nowUnixMs order =>
      match s.sweeps p with
      | .listing =>
          if order.Perm
              ((s.base.nodes p).stateMachine.pendingTxsOlderThan nowUnixMs thresholdMs) then
            some (s.setSweep p (.next order))
          else none
      | _ => none
  | .abort p =>
      match s.sweeps p with
      | .aborting txId rest =>
          (s.base.step m (.proposeAbortTx p txId)).map fun base =>
            setSweep p (.next rest) { s with base := base }
      | _ => none

def start : SweepCluster := { base := Cluster.start m, sweeps := fun _ => .sleeping }

/-- The step of the cluster in a step. -/
def baseEvent (s : SweepCluster) : SweepEvent → Option Event
  | .base e => some e
  | .abort p =>
      match s.sweeps p with
      | .aborting txId _ => some (.proposeAbortTx p txId)
      | _ => none
  | _ => none

/-- The logs survive. -/
def SweepsStand (s : SweepCluster) (e : SweepEvent) : Prop :=
  ∀ be ∈ s.baseEvent e, LogsStand inherited s.base be

instance (s : SweepCluster) (e : SweepEvent) : Decidable (s.SweepsStand e) :=
  decidable_of_iff ((s.baseEvent e).all (fun be => decide (LogsStand inherited s.base be)) = true)
    (by simp only [SweepsStand, Option.all_eq_true, decide_eq_true_eq, Option.mem_def])

/-- The node leads, and its loop begins no new pass. -/
def InPass (p : String) (s : SweepCluster) (e : SweepEvent) : Prop :=
  e.begins p = false ∧ ∀ s' ∈ s.step thresholdMs m e, (s'.base.nodes p).state = .leader

instance (p : String) (s : SweepCluster) (e : SweepEvent) : Decidable (s.InPass thresholdMs m p e) :=
  decidable_of_iff (e.begins p = false ∧ (s.step thresholdMs m e).all
      (fun s' => decide ((s'.base.nodes p).state = .leader)) = true)
    (by simp only [InPass, Option.all_eq_true, decide_eq_true_eq, Option.mem_def])

end SweepCluster

/-! ## Decisions in a log -/

/-- A decision stands behind the first `i` entries. -/
def DecidedSince (i : Nat) (txId : String) (log : List LogEntry) : Prop :=
  ∃ d, Command.decideTx txId d ∈ (log.drop i).map LogEntry.command

theorem DecidedSince.grows {i : Nat} {txId : String} {log log' : List LogEntry}
    (h : DecidedSince i txId log) (hlog : log <+: log') : DecidedSince i txId log' := by
  obtain ⟨d, hd⟩ := h
  obtain ⟨rest, rfl⟩ := hlog
  refine ⟨d, ?_⟩
  rw [List.drop_append, List.map_append]
  exact List.mem_append_left _ hd

theorem decidedSince_append {i : Nat} {txId : String} {log : List LogEntry} (hi : i ≤ log.length)
    {entry : LogEntry} {d : TxDecision} (h : entry.command = .decideTx txId d) :
    DecidedSince i txId (log ++ [entry]) := by
  refine ⟨d, ?_⟩
  rw [List.drop_append_of_le_length hi, List.map_append, ← h]
  simp

/-- A transaction that was decided and not begun again is not in flight. -/
theorem logStaged_of_decided {txId : String} : ∀ {cs : List Command} {staged : Staged},
    (∃ d, Command.decideTx txId d ∈ cs) → (∀ ops, Command.beginTx txId ops ∉ cs) →
      logStaged staged cs txId = none := by
  intro cs
  induction cs using List.reverseRecOn with
  | nil => simp
  | append_singleton cs c ih =>
    rintro staged ⟨d, hd⟩ hbegin
    have hrest : ∀ ops, Command.beginTx txId ops ∉ cs := fun ops hops =>
      hbegin ops (List.mem_append_left _ hops)
    rw [logStaged_append]
    show c.stagedAfter (logStaged staged cs) txId = none
    by_cases hc : ∃ d, c = .decideTx txId d
    · obtain ⟨d, rfl⟩ := hc
      exact Function.update_self txId none (logStaged staged cs)
    · have hmem : Command.decideTx txId d ∈ cs := by
        obtain hmem | hlast := List.mem_append.mp hd
        · exact hmem
        · exact absurd ⟨d, (List.mem_singleton.mp hlast).symm⟩ hc
      have hnone : logStaged staged cs txId = none := ih ⟨d, hmem⟩ hrest
      cases c with
      | beginTx id ops =>
        have hid : txId ≠ id := by
          rintro rfl
          exact hbegin ops (List.mem_append_right _ (List.mem_singleton_self _))
        exact (Function.update_of_ne hid _ _).trans hnone
      | decideTx id d' =>
        have hid : txId ≠ id := by
          rintro rfl
          exact hc ⟨d', rfl⟩
        exact (Function.update_of_ne hid _ _).trans hnone
      | _ => exact hnone

/-! ## The cluster under the loops -/

namespace SweepCluster

variable {thresholdMs : Nat} {m : Membership} {s s' : SweepCluster} {e : SweepEvent} {p : String}

@[simp] theorem setSweep_self (phase : SweepPhase) (s : SweepCluster) :
    (s.setSweep p phase).sweeps p = phase := Function.update_self _ _ _

theorem setSweep_of_ne {q : String} (h : p ≠ q) (phase : SweepPhase) (s : SweepCluster) :
    (s.setSweep q phase).sweeps p = s.sweeps p := Function.update_of_ne h _ _

/-- What a step does to the cluster. -/
theorem step_base (h : s.step thresholdMs m e = some s') :
    (s.baseEvent e = none ∧ s'.base = s.base) ∨
      ∃ be, s.baseEvent e = some be ∧ s.base.step m be = some s'.base := by
  cases e with
  | base e =>
    obtain ⟨t, ht, rfl⟩ := Option.map_eq_some_iff.mp h
    refine .inr ⟨e, rfl, ht.trans (congrArg some ?_)⟩
    cases e <;> rfl
  | tick q =>
    simp only [step] at h
    split at h
    · obtain rfl := Option.some.inj h
      exact .inl ⟨rfl, rfl⟩
    · cases h
  | list q nowUnixMs order =>
    simp only [step] at h
    split at h
    · split_ifs at h
      obtain rfl := Option.some.inj h
      exact .inl ⟨rfl, rfl⟩
    · cases h
  | abort q =>
    simp only [step] at h
    split at h
    · rename_i txId rest hphase
      obtain ⟨t, ht, rfl⟩ := Option.map_eq_some_iff.mp h
      exact .inr ⟨.proposeAbortTx q txId, by rw [baseEvent, hphase], ht⟩
    · cases h

/-- The logs are those of a replicated log, and no write fails. -/
def Backed (m : Membership) (s : SweepCluster) : Prop :=
  LogBacked inherited m s.base ∧ ∀ p, (s.base.nodes p).storage.walFaults = []

theorem start_backed (m : Membership) : Backed m (start m) :=
  ⟨start_logBacked inherited m, fun _ => rfl⟩

theorem step_backed (h : Backed m s) (hstand : s.SweepsStand e)
    (hstep : s.step thresholdMs m e = some s') : Backed m s' := by
  obtain ⟨-, hbase⟩ | ⟨be, hbe, hbase⟩ := step_base hstep
  · rwa [Backed, hbase]
  · have hlogs := hstand be hbe
    refine ⟨step_logBacked inherited_isSlack h.1 hlogs hbase, fun p => ?_⟩
    obtain hsame | ⟨ne, hne, hnode⟩ | ⟨clock, rfl, -⟩ := Cluster.step_node hbase p
    · rw [hsame]
      exact h.2 p
    · have hdurable := step_durable (h.2 p) (Cluster.nodeEvent_isSnapshot hne) hnode
      by_cases htruncates : (s.base.nodes p).Truncates ne
      · exact (hdurable.2 htruncates).1
      · exact (hdurable.1 htruncates).1
    · exact absurd trivial hlogs.votes.1

theorem run_backed {es : List SweepEvent}
    (halong : Along (step thresholdMs m) SweepsStand (start m) es)
    (hrun : run (step thresholdMs m) (start m) es = some s) : Backed m s :=
  run_invariant (I := Backed m) (fun h hstand hstep => step_backed h hstand hstep) (start_backed m)
    halong hrun

/-- What is in flight at a node is what the applied part of its log says. -/
theorem Backed.isTxPending_iff (h : Backed m s) (p txId : String) :
    (s.base.nodes p).stateMachine.isTxPending txId = true ↔
      logStaged Staged.none
        (((s.base.nodes p).log.take (s.base.nodes p).lastApplied).map LogEntry.command) txId ≠
        none := by
  obtain ⟨⟨a, fed, hrel, hholds⟩, -⟩ := h
  rw [StateMachine.isTxPending_iff, (hrel.stores p).staged, ← (hrel.stores p).fed_eq (hholds p)]

theorem Backed.applied_le (h : Backed m s) (p : String) :
    (s.base.nodes p).lastApplied ≤ (s.base.nodes p).log.length := by
  obtain ⟨⟨a, fed, hrel, hholds⟩, -⟩ := h
  rw [← (hrel.stores p).length]
  exact (hholds p).1.length_le

/-- A leader that stays one keeps its log and what it has applied. -/
theorem step_leader_grows (hstand : s.SweepsStand e)
    (hstep : s.step thresholdMs m e = some s') (hlead : (s.base.nodes p).state = .leader)
    (hlead' : (s'.base.nodes p).state = .leader) :
    (s.base.nodes p).log <+: (s'.base.nodes p).log ∧
      (s.base.nodes p).lastApplied ≤ (s'.base.nodes p).lastApplied := by
  obtain ⟨-, hbase⟩ | ⟨be, hbe, hbase⟩ := step_base hstep
  · rw [hbase]
    exact ⟨List.prefix_rfl, le_rfl⟩
  · obtain hsame | ⟨ne, hne, hnode⟩ | ⟨clock, rfl, -⟩ := Cluster.step_node hbase p
    · rw [hsame]
      exact ⟨List.prefix_rfl, le_rfl⟩
    · exact ⟨(step_leader hnode hlead hlead').2,
        (step_consumes (Cluster.nodeEvent_isSnapshot hne) hnode).applied⟩
    · exact absurd trivial (hstand _ hbe).votes.1

/-! ## A pass -/

/-- The pass of `p` over `order`, since the node was `n₀`. -/
structure Passes (n₀ : RaftNode) (order : List String) (p : String) (s : SweepCluster) : Prop where
  leader : (s.base.nodes p).state = .leader
  notListing : s.sweeps p ≠ .listing
  log : n₀.log <+: (s.base.nodes p).log
  applied : n₀.lastApplied ≤ (s.base.nodes p).lastApplied
  decided : ∀ txId ∈ order, txId ∈ (s.sweeps p).remaining ∨
    DecidedSince n₀.lastApplied txId (s.base.nodes p).log

/-- What was in flight when `p` had applied less is decided in between, when it
is not in flight any more. -/
theorem Backed.decidedSince {s₀ : SweepCluster} (h₀ : Backed m s₀) (h : Backed m s)
    (hlog : (s₀.base.nodes p).log <+: (s.base.nodes p).log)
    (happlied : (s₀.base.nodes p).lastApplied ≤ (s.base.nodes p).lastApplied) {txId : String}
    (hpending₀ : (s₀.base.nodes p).stateMachine.isTxPending txId = true)
    (hpending : (s.base.nodes p).stateMachine.isTxPending txId = false) :
    DecidedSince (s₀.base.nodes p).lastApplied txId (s.base.nodes p).log := by
  set i := (s₀.base.nodes p).lastApplied
  set j := (s.base.nodes p).lastApplied
  have hle := h₀.applied_le p
  have hsplit : (s.base.nodes p).log.take j =
      (s₀.base.nodes p).log.take i ++ ((s.base.nodes p).log.take j).drop i := by
    have htake : (s₀.base.nodes p).log.take i = ((s.base.nodes p).log.take j).take i := by
      obtain ⟨rest, hrest⟩ := hlog
      rw [List.take_take, Nat.min_eq_left happlied, ← hrest, List.take_append_of_le_length hle]
    rw [htake, List.take_append_drop]
  by_contra hnone
  have hnot : ∀ d, Command.decideTx txId d ∉
      (((s.base.nodes p).log.take j).drop i).map LogEntry.command := by
    rintro d hd
    refine hnone ⟨d, ?_⟩
    obtain ⟨entry, hentry, hcommand⟩ := List.mem_map.mp hd
    have hmem : entry ∈ (s.base.nodes p).log.drop i :=
      ((List.take_prefix j _).sublist.drop i).subset hentry
    exact List.mem_map.mpr ⟨entry, hmem, hcommand⟩
  have hstaged := @logStaged_of_mem txId [] _ _ hnot
    (.inl ((h₀.isTxPending_iff p txId).mp hpending₀))
  rw [← logStaged_append, ← List.map_append, ← hsplit] at hstaged
  have hstill := (h.isTxPending_iff p txId).mpr hstaged
  rw [hpending] at hstill
  cases hstill

/-- A step in a pass of `p` takes the next transaction, or leaves the loop where
it is. -/
theorem step_sweeps (hstand : s.SweepsStand e) (hpass : e.begins p = false)
    (hlisting : s.sweeps p ≠ .listing) (hstep : s.step thresholdMs m e = some s') :
    s'.sweeps p = s.sweeps p ∨
      ∃ txId rest, s.sweeps p = .aborting txId rest ∧ s'.sweeps p = .next rest ∧
        s'.base.nodes p = (proposeAbortTx txId (s.base.nodes p)).2 := by
  cases e with
  | base e =>
    obtain ⟨t, ht, rfl⟩ := Option.map_eq_some_iff.mp hstep
    left
    cases e with
    | restart q clock => exact absurd trivial (hstand _ rfl).votes.1
    | _ => rfl
  | tick q =>
    have hne : p ≠ q := fun h => by simp [SweepEvent.begins, h] at hpass
    simp only [step] at hstep
    split at hstep
    · obtain rfl := Option.some.inj hstep
      exact .inl (setSweep_of_ne hne _ s)
    · cases hstep
  | list q nowUnixMs order =>
    simp only [step] at hstep
    split at hstep
    · rename_i hphase
      have hne : p ≠ q := fun h => hlisting (h ▸ hphase)
      split_ifs at hstep
      obtain rfl := Option.some.inj hstep
      exact .inl (setSweep_of_ne hne _ s)
    · cases hstep
  | abort q =>
    simp only [step] at hstep
    split at hstep
    · rename_i txId rest hphase
      obtain ⟨t, ht, rfl⟩ := Option.map_eq_some_iff.mp hstep
      by_cases hpq : p = q
      · subst hpq
        refine .inr ⟨txId, rest, hphase, setSweep_self _ _, ?_⟩
        simp only [Cluster.step] at ht
        split_ifs at ht
        obtain rfl := Option.some.inj ht
        exact Cluster.setNode_nodes_self _ _ _
      · exact .inl (setSweep_of_ne hpq _ _)
    · cases hstep

/-- What `propose_abort_tx` leaves in the log of a leader. -/
theorem proposeAbortTx_decides {n : RaftNode} (hlead : n.state = .leader)
    (hf : n.storage.walFaults = []) {i : Nat} (hi : i ≤ n.log.length) {txId : String}
    (h : n.stateMachine.isTxPending txId = true) :
    DecidedSince i txId (proposeAbortTx txId n).2.log := by
  have hlog : (proposeAbortTx txId n).2.log =
      n.log ++ [n.nextEntry (.decideTx txId .abort)] := by
    rw [proposeAbortTx, if_neg (not_not.mpr hlead), if_neg (by simp [h])]
    obtain ⟨storage, -, -, ⟨heq, -⟩ | ⟨e, -, hfaults⟩⟩ :=
      appendEntry_cases (n.nextEntry (.decideTx txId .abort)) n
    · rw [heq]
    · exact absurd hf hfaults
  rw [hlog]
  exact decidedSince_append hi rfl

theorem step_passes {s₀ : SweepCluster} {order : List String} (h₀ : Backed m s₀)
    (hpending : ∀ txId ∈ order, (s₀.base.nodes p).stateMachine.isTxPending txId = true)
    (h : Passes (s₀.base.nodes p) order p s) (hb : Backed m s) (hstand : s.SweepsStand e)
    (hpass : s.InPass thresholdMs m p e) (hstep : s.step thresholdMs m e = some s') :
    Passes (s₀.base.nodes p) order p s' := by
  have hlead' := hpass.2 s' hstep
  obtain ⟨hlog, happlied⟩ := step_leader_grows hstand hstep h.leader hlead'
  obtain hsame | ⟨txId, rest, hphase, hphase', hnode⟩ :=
    step_sweeps hstand hpass.1 h.notListing hstep
  · refine ⟨hlead', hsame ▸ h.notListing, h.log.trans hlog, h.applied.trans happlied,
      fun txId htx => ?_⟩
    rw [hsame]
    exact (h.decided txId htx).imp_right (·.grows hlog)
  · refine ⟨hlead', ?_, h.log.trans hlog, h.applied.trans happlied, fun id hid => ?_⟩
    · rw [hphase']
      cases rest <;> simp [SweepPhase.next]
    · rw [hphase', SweepPhase.remaining_next]
      obtain hremaining | hdecided := h.decided id hid
      · rw [hphase, SweepPhase.remaining, List.mem_cons] at hremaining
        obtain rfl | hrest := hremaining
        · right
          -- it is aborted now, unless it was decided since the list was made
          cases hnow : (s.base.nodes p).stateMachine.isTxPending id with
          | true =>
            rw [hnode]
            exact proposeAbortTx_decides h.leader (hb.2 p)
              (h.applied.trans (hb.applied_le p)) hnow
          | false =>
            exact (h₀.decidedSince hb h.log h.applied (hpending id hid) hnow).grows hlog
        · exact .inl hrest
      · exact .inr (hdecided.grows hlog)

/-- After a pass during which the node has led, every transaction of its list has
a decision in its log, behind what was applied when the list was made. -/
theorem sweep_decides {es fs : List SweepEvent} {s t : SweepCluster} {p : String}
    {nowUnixMs : Nat} {order : List String}
    (halong : Along (step thresholdMs m) SweepsStand (start m) (es ++ .list p nowUnixMs order :: fs))
    (hs : run (step thresholdMs m) (start m) es = some s)
    (hlead : (s.base.nodes p).state = .leader)
    (hpass : Along (step thresholdMs m) (InPass thresholdMs m p) s
      (.list p nowUnixMs order :: fs))
    (ht : run (step thresholdMs m) s (.list p nowUnixMs order :: fs) = some t)
    (hdone : t.sweeps p = .sleeping) :
    ∀ txId ∈ order, DecidedSince (s.base.nodes p).lastApplied txId (t.base.nodes p).log := by
  obtain ⟨hfirst, hsecond⟩ := halong.append hs
  have h₀ := run_backed hfirst hs
  obtain ⟨u, hlist, hfs⟩ := run_cons_eq_some.mp ht
  -- the list
  obtain ⟨hperm, rfl⟩ : order.Perm
      ((s.base.nodes p).stateMachine.pendingTxsOlderThan nowUnixMs thresholdMs) ∧
      u = s.setSweep p (.next order) := by
    simp only [step] at hlist
    split at hlist
    · split_ifs at hlist with hperm
      exact ⟨hperm, (Option.some.inj hlist).symm⟩
    · cases hlist
  have hpending : ∀ txId ∈ order, (s.base.nodes p).stateMachine.isTxPending txId = true :=
    fun txId htx => StateMachine.isTxPending_of_mem (hperm.mem_iff.mp htx)
  have hbegin : Passes (s.base.nodes p) order p (s.setSweep p (.next order)) := by
    refine ⟨hlead, ?_, List.prefix_rfl, le_rfl, fun txId htx => .inl ?_⟩
    · rw [setSweep_self]
      cases order <;> simp [SweepPhase.next]
    · rwa [setSweep_self, SweepPhase.remaining_next]
  have hpasses : Passes (s.base.nodes p) order p t ∧ Backed m t :=
    run_invariant (I := fun t => Passes (s.base.nodes p) order p t ∧ Backed m t)
      (P := fun t e => t.SweepsStand e ∧ t.InPass thresholdMs m p e)
      (fun ⟨h, hb⟩ ⟨hstand, hin⟩ hstep =>
        ⟨step_passes h₀ hpending h hb hstand hin hstep, step_backed hb hstand hstep⟩)
      ⟨hbegin, h₀⟩ ((hsecond.2 _ hlist).and (hpass.2 _ hlist)) hfs
  intro txId htx
  obtain hremaining | hdecided := hpasses.1.decided txId htx
  · rw [hdone] at hremaining
    cases hremaining
  · exact hdecided

/-- A node that has applied a log with a decision in it has the transaction not
in flight, when it is not begun again. -/
theorem Backed.not_pending {u : SweepCluster} {q txId : String} {i : Nat} {log : List LogEntry}
    (h : Backed m u) (hdecided : DecidedSince i txId log) (hlog : log <+: (u.base.nodes q).log)
    (happlied : log.length ≤ (u.base.nodes q).lastApplied)
    (hbegin : ∀ ops, Command.beginTx txId ops ∉
      (between i (u.base.nodes q).lastApplied (u.base.nodes q).log).map LogEntry.command) :
    (u.base.nodes q).stateMachine.isTxPending txId = false := by
  obtain ⟨d, hd⟩ := hdecided
  set j := (u.base.nodes q).lastApplied
  have htake : log <+: (u.base.nodes q).log.take j := by
    rw [List.prefix_take_iff]
    exact ⟨hlog, happlied⟩
  have hmem : Command.decideTx txId d ∈
      (between i j (u.base.nodes q).log).map LogEntry.command := by
    obtain ⟨rest, hrest⟩ := htake
    rw [between, ← hrest, List.drop_append, List.map_append]
    exact List.mem_append_left _ hd
  have hsplit : (u.base.nodes q).log.take j =
      ((u.base.nodes q).log.take j).take i ++ between i j (u.base.nodes q).log :=
    (List.take_append_drop i _).symm
  have hnone := @logStaged_of_decided txId _ (logStaged Staged.none
    ((((u.base.nodes q).log.take j).take i).map LogEntry.command)) ⟨d, hmem⟩ hbegin
  rw [← logStaged_append, ← List.map_append, ← hsplit] at hnone
  rw [← Bool.not_eq_true, h.isTxPending_iff q txId]
  exact not_not.mpr hnone

/-- After a pass during which the node has led, every transaction of its list
has a decision in its log.  Whatever happens later, a node that has applied this
log has none of them in flight, but for those that are begun again. -/
theorem sweep_clears {es fs : List SweepEvent} {s t : SweepCluster} {p : String}
    {nowUnixMs : Nat} {order : List String}
    (halong : Along (step thresholdMs m) SweepsStand (start m) (es ++ .list p nowUnixMs order :: fs))
    (hs : run (step thresholdMs m) (start m) es = some s)
    (hlead : (s.base.nodes p).state = .leader)
    (hpass : Along (step thresholdMs m) (InPass thresholdMs m p) s
      (.list p nowUnixMs order :: fs))
    (ht : run (step thresholdMs m) s (.list p nowUnixMs order :: fs) = some t)
    (hdone : t.sweeps p = .sleeping) :
    ∀ txId ∈ order, DecidedSince (s.base.nodes p).lastApplied txId (t.base.nodes p).log ∧
      ∀ {gs : List SweepEvent} {u : SweepCluster} {q : String},
        Along (step thresholdMs m) SweepsStand t gs → run (step thresholdMs m) t gs = some u →
        (t.base.nodes p).log <+: (u.base.nodes q).log →
        (t.base.nodes p).log.length ≤ (u.base.nodes q).lastApplied →
        (∀ ops, Command.beginTx txId ops ∉ (between (s.base.nodes p).lastApplied
          (u.base.nodes q).lastApplied (u.base.nodes q).log).map LogEntry.command) →
        (u.base.nodes q).stateMachine.isTxPending txId = false := by
  intro txId htx
  have hdecided := sweep_decides halong hs hlead hpass ht hdone txId htx
  refine ⟨hdecided, fun hlater hu hlog happlied hbegin => ?_⟩
  have hbacked := run_backed halong (run_append_eq_some.mpr ⟨s, hs, ht⟩)
  have hbacked' : Backed m _ :=
    run_invariant (fun h hstand hstep => step_backed h hstand hstep) hbacked hlater hu
  exact hbacked'.not_pending hdecided hlog happlied hbegin

/-- `a` has applied a `BeginTx` and lists it. -/
def stuckTx : List SweepEvent :=
  (oneElection ++
    ([.propose "a" (.beginTx "t" [.put "x" "1"]), .leaderCheck "a", .resume 0 someClock,
      .resume 0 someClock, .resume 0 someClock, .deliver 2 someClock,
      .receive 1 someClock] : List Event)).map .base ++ [.tick "a"]

/-- `b` confirms the abort. -/
def abortConfirmed : List SweepEvent :=
  ([.leaderCheck "a", .resume 1 someClock, .resume 1 someClock, .resume 1 someClock,
    .deliver 4 someClock, .receive 2 someClock] : List Event).map .base

theorem sweep_clears_stuckTx :
    ∃ s t u, run (step 0 threeNodes) (start threeNodes) stuckTx = some s ∧
      (s.base.nodes "a").stateMachine.isTxPending "t" = true ∧
      run (step 0 threeNodes) s (.list "a" 1 ["t"] :: [.abort "a"]) = some t ∧
      run (step 0 threeNodes) t abortConfirmed = some u ∧
      DecidedSince (s.base.nodes "a").lastApplied "t" (t.base.nodes "a").log ∧
      (u.base.nodes "a").stateMachine.isTxPending "t" = false := by
  obtain ⟨s, hs, hlead, hpending, hpass, htu⟩ : ∃ s,
      run (step 0 threeNodes) (start threeNodes) stuckTx = some s ∧
        (s.base.nodes "a").state = .leader ∧
        (s.base.nodes "a").stateMachine.isTxPending "t" = true ∧
        Along (step 0 threeNodes) (InPass 0 threeNodes "a") s
          (.list "a" 1 ["t"] :: [.abort "a"]) ∧
        (run (step 0 threeNodes) s (.list "a" 1 ["t"] :: [.abort "a"])).any (fun t =>
          decide (t.sweeps "a" = .sleeping ∧
            Along (step 0 threeNodes) SweepsStand t abortConfirmed) &&
          (run (step 0 threeNodes) t abortConfirmed).any
            (fun u => decide ((t.base.nodes "a").log <+: (u.base.nodes "a").log ∧
              (t.base.nodes "a").log.length ≤ (u.base.nodes "a").lastApplied ∧
              (between (s.base.nodes "a").lastApplied (u.base.nodes "a").lastApplied
                (u.base.nodes "a").log).map LogEntry.command = [.decideTx "t" .abort]))) = true :=
    exists_run_of_any (by decide +kernel)
  obtain ⟨t, ht, hany⟩ := Option.any_eq_true _ _ |>.mp htu
  rw [Bool.and_eq_true, decide_eq_true_eq] at hany
  obtain ⟨⟨hdone, hlater⟩, hany⟩ := hany
  obtain ⟨u, hu, hrest⟩ := Option.any_eq_true _ _ |>.mp hany
  obtain ⟨hlog, happlied, hcommands⟩ := of_decide_eq_true hrest
  obtain ⟨hdecided, hclears⟩ := sweep_clears (by decide +kernel) hs hlead hpass ht hdone "t"
    (List.mem_singleton_self _)
  refine ⟨s, t, u, hs, hpending, ht, hu, hdecided,
    hclears hlater hu hlog happlied fun ops hops => ?_⟩
  rw [hcommands] at hops
  simp at hops

end SweepCluster

end OxideKv
