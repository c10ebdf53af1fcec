import OxideKv.Raft.SimTransport

/-!
# Runs over the simulated network

The harness on top of the network: the calls of the network are the RPCs of the
cluster, and the test can change the fault scheduler at any time.

* `handled_le`: a request is handled as often as the scheduler has it pushed, at
  most.
* `sim_calls`: so once, twice or never, and the caller gets the reply of one of
  these times or no reply.
* `sim_refines`, `sim_finalChecks`: the harness steps of a run are a run of the
  harness, so what holds of that one holds over the network.
-/

namespace OxideKv

open RaftNode Run

/-! ## The harness on top of it -/

structure SimRun (σ : Type) where
  harness : Harness
  network : Network
  faults : σ

inductive SimEvent (σ : Type) where
  /-- A step that needs no network. -/
  | base (e : HarnessEvent)
  /-- The test changes the scheduler. -/
  | setFaults (faults : σ)
  /-- The task of RPC `i` starts. -/
  | send (i : Nat)
  | wake (i : Nat)
  | push (i : Nat)
  | pushCopy (k : Nat)
  | expire (i : Nat)
  /-- The `serve` loop of the channel `c` takes a message. -/
  | serve (c : Nat) (clock : Clock)
  | stop (c : Nat)
  | register (p : String)
  /-- The task of RPC `i` goes on with what `send_raft` returns. -/
  | receive (i : Nat) (clock : Clock)

def HarnessEvent.IsHandover : HarnessEvent → Bool
  | .base e => e.IsHandover
  | _ => false

namespace SimRun

variable {σ : Type} (before : FaultScheduler σ) (m : Membership)

/-- What the scheduler says to RPC `i`. -/
def scheduled (s : SimRun σ) (rpc : Rpc) : ScheduleOutcome × σ :=
  before { src := rpc.src, dst := rpc.dst } (.raft rpc.request.message) s.faults

def send (i : Nat) (s : SimRun σ) : Option (SimRun σ) :=
  (s.harness.cluster.rpcs[i]?).bind fun rpc =>
    match s.network.calls i with
    | .idle =>
        match s.network.peers rpc.dst with
        | none =>
            some { s with
              network := s.network.setPhase i
                (.returned (.error (.unreachable ("peer " ++ rpc.dst ++ " not registered")))) }
        | some c =>
            some { s with
              network := s.network.schedule i c (s.scheduled before rpc).1
              faults := (s.scheduled before rpc).2 }
    | _ => none

def serve (c : Nat) (clock : Clock) (s : SimRun σ) : Option (SimRun σ) :=
  (s.network.recv c).bind fun (msg, owner, network) =>
    (s.harness.cluster.rpcs[msg.call]?).bind fun rpc =>
      ((s.harness.cluster.nodes owner).serveMessage clock (.raft rpc.request.message)).map
        fun (result, n) =>
          { s with
            harness := { s.harness with cluster := s.harness.cluster.setNode owner n }
            network := network.reply msg result }

/-- The task of an RPC with the reply that it waited for. -/
def resumeTask (i : Nat) (clock : Clock) (rpc : Rpc) (msg : RaftMessage) (s : Cluster) :
    Cluster :=
  let s := { s with rpcs := s.rpcs.set i { rpc with waiting := false } }
  ((Reply.ofMessage msg).map fun r => s.process clock rpc r).getD s

def receive (i : Nat) (clock : Clock) (s : SimRun σ) : Option (SimRun σ) :=
  (s.harness.cluster.rpcs[i]?).bind fun rpc =>
    match rpc.waiting, s.network.calls i with
    | true, .answered result =>
        let network := s.network.setPhase i (.returned (result.bind raftReply))
        match result.bind raftReply with
        | .error _ => some { s with network := network }
        | .ok msg =>
            some { s with
              harness := { s.harness with
                cluster := resumeTask i clock rpc msg s.harness.cluster }
              network := network }
    | _, _ => none

def step (s : SimRun σ) : SimEvent σ → Option (SimRun σ)
  | .base e =>
      if e.IsHandover then none
      else (s.harness.step m e).map fun harness => { s with harness := harness }
  | .setFaults faults => some { s with faults := faults }
  | .send i => s.send before i
  | .wake i => (s.network.wake i).map fun network => { s with network := network }
  | .push i => (s.network.push i).map fun network => { s with network := network }
  | .pushCopy k => (s.network.pushCopy k).map fun network => { s with network := network }
  | .expire i => (s.network.expire i).map fun network => { s with network := network }
  | .serve c clock => s.serve c clock
  | .stop c => (s.network.close c).map fun network => { s with network := network }
  | .register p => some { s with network := s.network.register p }
  | .receive i clock => s.receive i clock

def start (faults : σ) : SimRun σ :=
  { harness := Harness.start m, network := Network.start m.members, faults := faults }

end SimRun

namespace SimRun

variable {σ : Type} {before : FaultScheduler σ} {m : Membership} {s s' : SimRun σ}
  {e : SimEvent σ} {es : List (SimEvent σ)} {i : Nat}

/-! ## One step -/

/-- The step takes a message of call `i` out of the channel `c`. -/
def takesFrom (i c : Nat) (s : SimRun σ) : SimEvent σ → Bool
  | .serve c' _ => decide (c' = c) && s.network.heads i c'
  | _ => false

/-- The step hands a message of call `i` to a node. -/
def handles (i : Nat) (s : SimRun σ) : SimEvent σ → Bool
  | .serve c _ => s.network.heads i c
  | _ => false

/-- What is handled was on the way. -/
structure Proceeds (s s' : SimRun σ) (e : SimEvent σ) : Prop where
  load : ∀ j c, s'.network.load j c + (if s.takesFrom j c e then 1 else 0) ≤ s.network.load j c
  idle : ∀ j, s'.network.calls j = .idle ↔ s.network.calls j = .idle
  owners : Network.KeepsOwners s.network s'.network

theorem Proceeds.of_spends (h : Network.Spends s.network s'.network)
    (he : ∀ c clock, e ≠ .serve c clock) : Proceeds s s' e := by
  refine ⟨fun j c => ?_, h.idle, h.owners⟩
  have hnone : s.takesFrom j c e = false := by
    cases e with
    | serve c clock => exact absurd rfl (he c clock)
    | _ => rfl
  rw [hnone]
  exact h.load j c

theorem step_proceeds (he : ∀ j, e ≠ .send j) (h : s.step before m e = some s') :
    Proceeds s s' e := by
  cases e with
  | base e =>
    simp only [step] at h
    split_ifs at h
    obtain ⟨harness, -, rfl⟩ := Option.map_eq_some_iff.mp h
    exact .of_spends (.refl _) (by simp)
  | setFaults faults =>
    obtain rfl := Option.some.inj h
    exact .of_spends (.refl _) (by simp)
  | send j => exact absurd rfl (he j)
  | wake j =>
    obtain ⟨network, hnet, rfl⟩ := Option.map_eq_some_iff.mp h
    exact .of_spends (Network.wake_quiet hnet).toSpends (by simp)
  | push j =>
    obtain ⟨network, hnet, rfl⟩ := Option.map_eq_some_iff.mp h
    exact .of_spends (Network.push_quiet hnet).toSpends (by simp)
  | pushCopy k =>
    obtain ⟨network, hnet, rfl⟩ := Option.map_eq_some_iff.mp h
    exact .of_spends (Network.pushCopy_quiet hnet).toSpends (by simp)
  | expire j =>
    obtain ⟨network, hnet, rfl⟩ := Option.map_eq_some_iff.mp h
    exact .of_spends (Network.expire_quiet hnet).toSpends (by simp)
  | serve c clock =>
    obtain ⟨⟨msg, owner, network⟩, hrecv, h⟩ := Option.bind_eq_some_iff.mp h
    obtain ⟨rpc, -, h⟩ := Option.bind_eq_some_iff.mp h
    obtain ⟨⟨result, n⟩, -, rfl⟩ := Option.map_eq_some_iff.mp h
    have hreply := Network.reply_spends network msg result
    refine ⟨fun j c' => ?_, fun j => ?_, ?_⟩
    · have hload := Network.load_recv (i := j) (c := c') hrecv
      have hle := hreply.load j c'
      simp only [takesFrom, Bool.and_eq_true, decide_eq_true_eq]
      omega
    · rw [hreply.idle j, Network.recv_calls hrecv]
    · exact (Network.recv_owners hrecv).trans hreply.owners
  | stop c =>
    obtain ⟨network, hnet, rfl⟩ := Option.map_eq_some_iff.mp h
    exact .of_spends (Network.close_quiet hnet).toSpends (by simp)
  | register p =>
    obtain rfl := Option.some.inj h
    exact .of_spends (Network.register_quiet p).toSpends (by simp)
  | receive j clock =>
    obtain ⟨rpc, -, h⟩ := Option.bind_eq_some_iff.mp h
    split at h
    · rename_i result hwaiting hphase
      have hspends : Network.Spends s.network
          (s.network.setPhase j (.returned (result.bind raftReply))) :=
        Network.settle_spends (by simp [hphase]) (by simp) fun _ => rfl
      dsimp only at h
      split at h <;> obtain rfl := Option.some.inj h <;> exact .of_spends hspends (by simp)
    · cases h

/-- How often the message of RPC `i` is pushed if it is sent now. -/
def pushes (before : FaultScheduler σ) (s : SimRun σ) (i : Nat) : Nat :=
  (s.harness.cluster.rpcs[i]?).elim 0 fun rpc =>
    if (s.network.peers rpc.dst).isSome then (s.scheduled before rpc).1.pushes else 0

/-- RPC `i` is sent to the node that is registered. -/
structure Starts (before : FaultScheduler σ) (i : Nat) (s s' : SimRun σ) : Prop where
  harness : s'.harness = s.harness
  idle : s.network.calls i = .idle
  started : s'.network.calls i ≠ .idle
  noReply : (s'.network.calls i).reply = none
  others : ∀ j, j ≠ i → s'.network.calls j = s.network.calls j
  owners : Network.KeepsOwners s.network s'.network
  load : ∀ j, j ≠ i → ∀ c, s'.network.load j c = s.network.load j c
  pushed : ∃ rpc c₀, s.harness.cluster.rpcs[i]? = some rpc ∧
    (s.pushes before i ≠ 0 → s.network.peers rpc.dst = some c₀) ∧
    ∀ c, s.network.load i c = 0 → s'.network.load i c = if c₀ = c then s.pushes before i else 0

theorem step_send (h : s.step before m (.send i) = some s') : Starts before i s s' := by
  obtain ⟨rpc, hrpc, h⟩ := Option.bind_eq_some_iff.mp h
  split at h
  · rename_i hidle
    have hpushes : s.pushes before i =
        if (s.network.peers rpc.dst).isSome then (s.scheduled before rpc).1.pushes else 0 := by
      unfold pushes
      rw [hrpc, Option.elim_some]
    split at h
    · rename_i hpeer
      obtain rfl := Option.some.inj h
      have hnone : s.pushes before i = 0 := by
        rw [hpushes, hpeer]
        rfl
      refine ⟨rfl, hidle, ?_, ?_, fun j hj => ?_, .of_eq rfl rfl, fun j hj c => ?_, rpc, 0, hrpc,
        fun hne => absurd hnone hne, fun c hload => ?_⟩
      · simp [Network.setPhase_calls]
      · rw [Network.setPhase_calls, if_pos rfl]
        rfl
      · simp [Network.setPhase_calls, hj]
      · simpa [hj] using Network.load_setPhase_add s.network i j c _
      · rw [Network.load_setPhase_idle hidle hload, hnone, ite_self]
        exact if_neg Bool.false_ne_true
    · rename_i c₀ hpeer
      obtain rfl := Option.some.inj h
      rw [hpeer, Option.isSome_some, if_pos rfl] at hpushes
      obtain ⟨phase, hphase, hreply, hcalls⟩ := Network.schedule_calls s.network i c₀
        (s.scheduled before rpc).1
      refine ⟨rfl, hidle, ?_, ?_, fun j hj => ?_, Network.schedule_owners c₀ _,
        fun j hj c => ?_, rpc, c₀, hrpc, fun _ => hpeer, fun c hload => ?_⟩
      · rw [hcalls, Network.setPhase_calls, if_pos rfl]
        exact hphase
      · rw [hcalls, Network.setPhase_calls, if_pos rfl]
        exact hreply
      · rw [hcalls, Network.setPhase_calls, if_neg hj]
      · exact Network.load_schedule_of_ne hj c₀ _
      · rw [hpushes]
        exact Network.load_schedule hidle hload c₀ _
  · cases h

/-! ## How often a call is handled -/

theorem start_load (faults : σ) (j c : Nat) : (start m faults).network.load j c = 0 := by
  have hspends : ∀ (members : List String) (net : Network),
      Network.Spends net (members.foldl (fun net p => net.register p) net) := by
    intro members
    induction members with
    | nil => exact fun net => .refl net
    | cons p members ih => exact fun net => (Network.register_quiet p).toSpends.trans (ih _)
  exact Nat.le_zero.mp ((hspends m.members _).load j c)

theorem start_idle (faults : σ) (j : Nat) : (start m faults).network.calls j = .idle := by
  have hcalls : ∀ (members : List String) (net : Network),
      (members.foldl (fun net p => net.register p) net).calls = net.calls := by
    intro members
    induction members with
    | nil => exact fun net => rfl
    | cons p members ih => exact fun net => ih _
  exact congrFun (hcalls m.members _) j

/-- What has become of RPC `i`. -/
inductive Account (before : FaultScheduler σ) (m : Membership) (faults : σ) (i : Nat)
    (es : List (SimEvent σ)) (s : SimRun σ) : Prop where
  | unsent (hidle : s.network.calls i = .idle) (hload : ∀ c, s.network.load i c = 0)
      (hnone : countSteps (step before m) (handles i) (start m faults) es = 0)
  | sent {t t' : SimRun σ} {c₀ : Nat} (hstarted : s.network.calls i ≠ .idle)
      (htakes : Takes (step before m) (start m faults) es t (.send i) t')
      (honly : ∀ c, c ≠ c₀ → s.network.load i c = 0)
      (hle : countSteps (step before m) (handles i) (start m faults) es +
        s.network.load i c₀ ≤ t.pushes before i)

theorem Proceeds.account {faults : σ} (h : Proceeds s s' e)
    (hrun : run (step before m) (start m faults) es = some s)
    (haccount : Account before m faults i es s) :
    Account before m faults i (es ++ [e]) s' := by
  have hcount := countSteps_concat (P := handles i) (e := e) hrun
  have hhandles : s.handles i e = true → ∃ c, s.takesFrom i c e = true := by
    intro hhead
    cases e with
    | serve c clock => exact ⟨c, by simpa [takesFrom, handles] using hhead⟩
    | _ => cases hhead
  have hnothing : ∀ c, s.network.load i c = 0 →
      s'.network.load i c = 0 ∧ s.takesFrom i c e = false := by
    intro c hload
    have hle := h.load i c
    rw [hload] at hle
    split_ifs at hle with htakes
    · omega
    · exact ⟨by omega, by simpa using htakes⟩
  cases haccount with
  | unsent hidle hload hnone =>
    refine .unsent ((h.idle i).mpr hidle) (fun c => (hnothing c (hload c)).1) ?_
    rw [hcount, hnone, if_neg]
    intro hhead
    obtain ⟨c, htakes⟩ := hhandles hhead
    rw [(hnothing c (hload c)).2] at htakes
    cases htakes
  | @sent t t' c₀ hstarted htakes honly hle =>
    refine .sent (fun hidle => hstarted ((h.idle i).mp hidle)) (htakes.append [e])
      (fun c hc => (hnothing c (honly c hc)).1) ?_
    have hload := h.load i c₀
    rw [hcount]
    by_cases hhead : s.handles i e = true
    · obtain ⟨c, hc⟩ := hhandles hhead
      obtain rfl : c = c₀ := by
        by_contra hne
        rw [(hnothing c (honly c hne)).2] at hc
        cases hc
      rw [if_pos hhead]
      rw [if_pos hc] at hload
      omega
    · rw [if_neg hhead]
      omega

theorem Starts.account {faults : σ} {j : Nat} (h : Starts before j s s')
    (hstep : s.step before m (.send j) = some s')
    (hrun : run (step before m) (start m faults) es = some s)
    (haccount : Account before m faults i es s) :
    Account before m faults i (es ++ [.send j]) s' := by
  have hcount := countSteps_concat (P := handles i) (e := SimEvent.send j) hrun
  rw [show s.handles i (.send j) = false from rfl, if_neg Bool.false_ne_true, Nat.add_zero]
    at hcount
  cases haccount with
  | unsent hidle hload hnone =>
    by_cases hij : i = j
    · subst hij
      obtain ⟨rpc, c₀, -, -, hpushed⟩ := h.pushed
      refine .sent h.started (takes_last hrun hstep) (fun c (hc : c ≠ c₀) => ?_) ?_
      · rw [hpushed c (hload c), if_neg (Ne.symm hc)]
      · rw [hcount, hnone, hpushed c₀ (hload c₀), if_pos rfl, Nat.zero_add]
    · refine .unsent (by rw [h.others i hij, hidle]) (fun c => ?_) (hcount.trans hnone)
      rw [h.load i hij, hload]
  | sent hstarted htakes honly hle =>
    have hij : i ≠ j := by
      rintro rfl
      exact hstarted h.idle
    refine .sent (by rw [h.others i hij]; exact hstarted) (htakes.append _)
      (fun c hc => by rw [h.load i hij, honly c hc]) ?_
    rw [hcount, h.load i hij]
    exact hle

theorem run_account {faults : σ}
    (hrun : run (step before m) (start m faults) es = some s) :
    Account before m faults i es s := by
  refine run_history (P := fun _ _ => True) (H := Account before m faults i) ?_ ?_
    (along_of_forall (fun _ _ => trivial) es _) hrun
  · exact .unsent (start_idle faults i) (start_load faults i) rfl
  · intro es t t' e ht haccount _ hstep
    by_cases he : ∃ j, e = .send j
    · obtain ⟨j, rfl⟩ := he
      exact (step_send hstep).account hstep ht haccount
    · have hne : ∀ j, e ≠ .send j := fun j hj => he ⟨j, hj⟩
      exact (step_proceeds hne hstep).account ht haccount

/-- A request is handled as often as the scheduler has it pushed, at most: once,
or twice when it is duplicated, and never when it is dropped or not sent. -/
theorem handled_le {faults : σ} (hrun : run (step before m) (start m faults) es = some s) :
    countSteps (step before m) (handles i) (start m faults) es = 0 ∨
      ∃ t t', Takes (step before m) (start m faults) es t (.send i) t' ∧
        countSteps (step before m) (handles i) (start m faults) es ≤ t.pushes before i := by
  cases run_account (i := i) hrun with
  | unsent _ _ hnone => exact Or.inl hnone
  | sent _ htakes _ hle => exact Or.inr ⟨_, _, htakes, (Nat.le_add_right _ _).trans hle⟩

/-! ## Where the messages go -/

theorem resumeTask_keeps {clock : Clock} {rpc : Rpc} {msg : RaftMessage} {c : Cluster}
    (hrpc : c.rpcs[i]? = some rpc) : Cluster.Keeps c (resumeTask i clock rpc msg c) := by
  have hmessages : (resumeTask i clock rpc msg c).rpcs =
      c.rpcs.set i { rpc with waiting := false } ∧
        (resumeTask i clock rpc msg c).replies = c.replies := by
    unfold resumeTask
    cases Reply.ofMessage msg with
    | none => exact ⟨rfl, rfl⟩
    | some r => exact Cluster.process_messages clock rpc r _
  refine ⟨fun {j rpc'} hj => ?_, by rw [hmessages.2]⟩
  rw [hmessages.1]
  by_cases hij : i = j
  · subst hij
    obtain rfl : rpc = rpc' := Option.some.inj (hrpc.symm.trans hj)
    exact ⟨_, List.getElem?_set_self (List.getElem?_eq_some_iff.mp hj).1, rfl, rfl, rfl⟩
  · exact ⟨rpc', (List.getElem?_set_ne hij).trans hj, rfl, rfl, rfl⟩

theorem harness_keeps {h h' : Harness} {e : HarnessEvent} (hstep : h.step m e = some h') :
    Cluster.Keeps h.cluster h'.cluster := by
  cases e with
  | base e =>
    obtain ⟨c, hc, rfl⟩ := Option.map_eq_some_iff.mp hstep
    exact Cluster.step_keeps hc
  | kill | drain | replay | reset =>
    obtain rfl := Option.some.inj hstep
    exact .of_eq rfl rfl

theorem step_keeps (h : s.step before m e = some s') :
    Cluster.Keeps s.harness.cluster s'.harness.cluster := by
  cases e with
  | base e =>
    simp only [step] at h
    split_ifs at h
    obtain ⟨harness, hharness, rfl⟩ := Option.map_eq_some_iff.mp h
    exact harness_keeps hharness
  | send j =>
    rw [(step_send h).harness]
    exact .of_eq rfl rfl
  | wake | push | pushCopy | expire | stop =>
    obtain ⟨network, -, rfl⟩ := Option.map_eq_some_iff.mp h
    exact .of_eq rfl rfl
  | setFaults | register =>
    obtain rfl := Option.some.inj h
    exact .of_eq rfl rfl
  | serve c clock =>
    obtain ⟨⟨msg, owner, network⟩, -, h⟩ := Option.bind_eq_some_iff.mp h
    obtain ⟨rpc, -, h⟩ := Option.bind_eq_some_iff.mp h
    obtain ⟨⟨result, n⟩, -, rfl⟩ := Option.map_eq_some_iff.mp h
    exact .of_eq rfl rfl
  | receive j clock =>
    obtain ⟨rpc, hrpc, h⟩ := Option.bind_eq_some_iff.mp h
    split at h
    · dsimp only at h
      split at h
      · obtain rfl := Option.some.inj h
        exact .of_eq rfl rfl
      · obtain rfl := Option.some.inj h
        exact resumeTask_keeps hrpc
    · cases h

/-- What is on the way to a channel is for the node that reads it. -/
structure Routed (s : SimRun σ) : Prop where
  peer : ∀ {p : String} {c : Nat}, s.network.peers p = some c →
    ∃ ch : InboundChannel, s.network.channels[c]? = some ch ∧ ch.owner = p
  unsent : ∀ {i : Nat}, s.network.calls i = .idle → ∀ c, s.network.load i c = 0
  load : ∀ {i c : Nat}, s.network.load i c ≠ 0 → ∃ (ch : InboundChannel) (rpc : Rpc),
    s.network.channels[c]? = some ch ∧ s.harness.cluster.rpcs[i]? = some rpc ∧ ch.owner = rpc.dst

theorem start_routed (faults : σ) : Routed (start m faults) := by
  refine ⟨fun {p c} hp => ?_, fun _ => start_load faults _, fun hload => ?_⟩
  · have howners : ∀ (members : List String) (net : Network),
        Network.KeepsOwners net (members.foldl (fun net p => net.register p) net) := by
      intro members
      induction members with
      | nil => exact fun net => .of_eq rfl rfl
      | cons q members ih => exact fun net => (Network.register_quiet q).owners.trans (ih _)
    rcases (howners m.members _).peer hp with hp | hch
    · cases hp
    · exact hch
  · exact absurd (start_load faults _ _) hload

theorem step_routed (h : s.Routed) (hstep : s.step before m e = some s') : s'.Routed := by
  have hkeeps := step_keeps hstep
  have hpeer : Network.KeepsOwners s.network s'.network → ∀ {p : String} {c : Nat},
      s'.network.peers p = some c →
        ∃ ch : InboundChannel, s'.network.channels[c]? = some ch ∧ ch.owner = p := by
    intro howners p c hp
    rcases howners.peer hp with hp | hch
    · obtain ⟨ch, hc, howner⟩ := h.peer hp
      obtain ⟨ch', hc', howner'⟩ := howners.channel hc
      exact ⟨ch', hc', howner'.trans howner⟩
    · exact hch
  have hold : Network.KeepsOwners s.network s'.network → ∀ {j c : Nat},
      s.network.load j c ≠ 0 → ∃ (ch : InboundChannel) (rpc : Rpc),
        s'.network.channels[c]? = some ch ∧ s'.harness.cluster.rpcs[j]? = some rpc ∧
          ch.owner = rpc.dst := by
    intro howners j c hload
    obtain ⟨ch, rpc, hc, hrpc, howner⟩ := h.load hload
    obtain ⟨ch', hc', howner'⟩ := howners.channel hc
    obtain ⟨rpc', hrpc', -, hdst, -⟩ := hkeeps.rpc hrpc
    exact ⟨ch', rpc', hc', hrpc', by rw [howner', howner, hdst]⟩
  by_cases he : ∃ i, e = .send i
  · obtain ⟨i, rfl⟩ := he
    have hstarts := step_send hstep
    obtain ⟨rpc, c₀, hrpc, hregistered, hpushed⟩ := hstarts.pushed
    refine ⟨hpeer hstarts.owners, fun {j} hj c => ?_, fun {j c} hload => ?_⟩
    · have hji : j ≠ i := by
        rintro rfl
        exact hstarts.started hj
      rw [hstarts.load j hji, h.unsent (hstarts.others j hji ▸ hj)]
    · by_cases hji : j = i
      · subst hji
        rw [hpushed c (h.unsent hstarts.idle c)] at hload
        split_ifs at hload with hc
        · subst hc
          obtain ⟨ch, hc, howner⟩ := h.peer (hregistered hload)
          obtain ⟨ch', hc', howner'⟩ := hstarts.owners.channel hc
          exact ⟨ch', rpc, hc', hstarts.harness ▸ hrpc, howner'.trans howner⟩
        · exact absurd rfl hload
      · exact hold hstarts.owners (hstarts.load j hji c ▸ hload)
  · have hproceeds := step_proceeds (fun i hi => he ⟨i, hi⟩) hstep
    refine ⟨hpeer hproceeds.owners, fun {j} hj c => ?_, fun {j c} hload => ?_⟩
    · have hle := hproceeds.load j c
      rw [h.unsent ((hproceeds.idle j).mp hj)] at hle
      omega
    · have hle := hproceeds.load j c
      exact hold hproceeds.owners (by omega)

/-- A message that is taken out of a channel is handled by the node that it was
sent to. -/
theorem Routed.serve_cases (h : s.Routed) {c : Nat} {clock : Clock}
    (hstep : s.step before m (.serve c clock) = some s') :
    ∃ msg owner network rpc, s.network.recv c = some (msg, owner, network) ∧
      s.network.heads msg.call c ∧ s.harness.cluster.rpcs[msg.call]? = some rpc ∧
      s' = { s with
        harness := { s.harness with
          cluster := s.harness.cluster.setNode rpc.dst
            (rpc.request.handle clock (s.harness.cluster.nodes rpc.dst)).2 }
        network := network.reply msg
          (.ok (.raft (rpc.request.handle clock (s.harness.cluster.nodes rpc.dst)).1.message)) } := by
  obtain ⟨⟨msg, owner, network⟩, hrecv, hstep⟩ := Option.bind_eq_some_iff.mp hstep
  obtain ⟨rpc, hrpc, hstep⟩ := Option.bind_eq_some_iff.mp hstep
  obtain ⟨⟨result, n⟩, hserve, rfl⟩ := Option.map_eq_some_iff.mp hstep
  obtain ⟨ch, rest, hc, hqueue, rfl, -⟩ := Network.recv_cases hrecv
  have hheads : s.network.heads msg.call c = true := by
    rw [Network.heads_of_queue hc hqueue, decide_eq_true_eq]
  have howner : ch.owner = rpc.dst := by
    have hload := Network.load_recv (i := msg.call) (c := c) hrecv
    rw [if_pos ⟨rfl, hheads⟩] at hload
    obtain ⟨ch', rpc', hc', hrpc', howner⟩ := h.load (i := msg.call) (c := c) (by omega)
    obtain rfl : ch = ch' := Option.some.inj (hc.symm.trans hc')
    obtain rfl : rpc = rpc' := Option.some.inj (hrpc.symm.trans hrpc')
    exact howner
  rw [howner, RaftNode.serveMessage, dispatchRaftMessage_request] at hserve
  obtain ⟨rfl, rfl⟩ := Prod.mk.inj (Option.some.inj hserve)
  rw [howner] at hrecv
  exact ⟨msg, rpc.dst, network, rpc, hrecv, hheads, hrpc, by rw [howner]; rfl⟩

/-! ## Where the replies come from -/

/-- The answer of the node that handles the request of RPC `i`. -/
def ServesReply (i : Nat) (body : InboundMessageBody) (s s' : SimRun σ) (e : SimEvent σ) : Prop :=
  ∃ c clock rpc, e = .serve c clock ∧ s.network.heads i c ∧
    s.harness.cluster.rpcs[i]? = some rpc ∧
    body = .raft (rpc.request.handle clock (s.harness.cluster.nodes rpc.dst)).1.message ∧
    s'.harness.cluster.nodes rpc.dst =
      (rpc.request.handle clock (s.harness.cluster.nodes rpc.dst)).2

/-- A reply that a call has was there, or it is the answer of a node. -/
theorem step_reply (h : s.Routed) (hstep : s.step before m e = some s')
    {body : InboundMessageBody} (hbody : (s'.network.calls i).reply = some body) :
    (s.network.calls i).reply = some body ∨ ServesReply i body s s' e := by
  cases e with
  | base e =>
    simp only [step] at hstep
    split_ifs at hstep
    obtain ⟨harness, -, rfl⟩ := Option.map_eq_some_iff.mp hstep
    exact Or.inl hbody
  | setFaults faults =>
    obtain rfl := Option.some.inj hstep
    exact Or.inl hbody
  | send j =>
    have hstarts := step_send hstep
    by_cases hij : i = j
    · subst hij
      rw [hstarts.noReply] at hbody
      cases hbody
    · exact Or.inl (hstarts.others i hij ▸ hbody)
  | wake j =>
    obtain ⟨network, hnet, rfl⟩ := Option.map_eq_some_iff.mp hstep
    exact Or.inl ((Network.wake_quiet hnet).reply hbody)
  | push j =>
    obtain ⟨network, hnet, rfl⟩ := Option.map_eq_some_iff.mp hstep
    exact Or.inl ((Network.push_quiet hnet).reply hbody)
  | pushCopy k =>
    obtain ⟨network, hnet, rfl⟩ := Option.map_eq_some_iff.mp hstep
    exact Or.inl ((Network.pushCopy_quiet hnet).reply hbody)
  | expire j =>
    obtain ⟨network, hnet, rfl⟩ := Option.map_eq_some_iff.mp hstep
    exact Or.inl ((Network.expire_quiet hnet).reply hbody)
  | stop c =>
    obtain ⟨network, hnet, rfl⟩ := Option.map_eq_some_iff.mp hstep
    exact Or.inl ((Network.close_quiet hnet).reply hbody)
  | register p =>
    obtain rfl := Option.some.inj hstep
    exact Or.inl ((Network.register_quiet p).reply hbody)
  | serve c clock =>
    obtain ⟨msg, owner, network, rpc, hrecv, hheads, hrpc, rfl⟩ := h.serve_cases hstep
    rw [← Network.recv_calls hrecv]
    dsimp only at hbody
    rcases Network.reply_cases network msg (.ok (.raft
      (rpc.request.handle clock (s.harness.cluster.nodes rpc.dst)).1.message)) with
      heq | ⟨-, heq⟩
    · rw [heq] at hbody
      exact Or.inl hbody
    · rw [heq, Network.setPhase_calls] at hbody
      split_ifs at hbody with hij
      · subst hij
        obtain rfl := Option.some.inj hbody
        exact Or.inr ⟨c, clock, rpc, rfl, hheads, hrpc, rfl, Cluster.setNode_nodes_self _ _ _⟩
      · exact Or.inl hbody
  | receive j clock =>
    obtain ⟨rpc, -, hstep⟩ := Option.bind_eq_some_iff.mp hstep
    split at hstep
    · rename_i result hwaiting hphase
      have hreplied : s'.network =
          s.network.setPhase j (.returned (result.bind raftReply)) := by
        dsimp only at hstep
        split at hstep <;> obtain rfl := Option.some.inj hstep <;> rfl
      rw [hreplied, Network.setPhase_calls] at hbody
      split_ifs at hbody with hij
      · subst hij
        rw [hphase]
        rcases result with e | body'
        · cases hbody
        · cases body' with
          | raft msg => exact Or.inl hbody
          | vote req => cases hbody
          | voteReply resp => cases hbody
      · exact Or.inl hbody
    · cases hstep

/-- A reply that a call has got, also when it has returned it, is the answer of
the node that it was sent to. -/
theorem reply_served {faults : σ} (hrun : run (step before m) (start m faults) es = some s)
    {body : InboundMessageBody} (hbody : (s.network.calls i).reply = some body) :
    ∃ t e t', Takes (step before m) (start m faults) es t e t' ∧ ServesReply i body t t' e := by
  have hhistory : s.Routed ∧ ∀ body, (s.network.calls i).reply = some body →
      ∃ t e t', Takes (step before m) (start m faults) es t e t' ∧ ServesReply i body t t' e := by
    refine run_history (P := fun _ _ => True) (H := fun es s => s.Routed ∧
      ∀ body, (s.network.calls i).reply = some body → ∃ t e t',
        Takes (step before m) (start m faults) es t e t' ∧ ServesReply i body t t' e)
      ⟨start_routed faults, fun body hbody => ?_⟩ ?_ (along_of_forall (fun _ _ => trivial) es _)
      hrun
    · rw [start_idle] at hbody
      cases hbody
    · rintro es u u' e hu ⟨hrouted, hserved⟩ - hstep
      refine ⟨step_routed hrouted hstep, fun body hbody => ?_⟩
      rcases step_reply hrouted hstep hbody with hbefore | hserves
      · obtain ⟨t, e', t', htakes, hserves⟩ := hserved body hbefore
        exact ⟨t, e', t', htakes.append [e], hserves⟩
      · exact ⟨u, e, u', takes_last hu hstep, hserves⟩
  exact hhistory.2 body hbody

/-- A call is handled as often as the scheduler has it pushed, at most, and what
it returns is what the node it was sent to has answered. -/
theorem sim_calls {faults : σ} (hrun : run (step before m) (start m faults) es = some s) :
    (countSteps (step before m) (handles i) (start m faults) es = 0 ∨
      ∃ t t', Takes (step before m) (start m faults) es t (.send i) t' ∧
        countSteps (step before m) (handles i) (start m faults) es ≤ t.pushes before i) ∧
    ∀ body, (s.network.calls i).reply = some body →
      ∃ t e t', Takes (step before m) (start m faults) es t e t' ∧ ServesReply i body t t' e :=
  ⟨handled_le hrun, fun _ hbody => reply_served hrun hbody⟩

/-- `b` handles the request of `a` and its duplicate. -/
def votedTwice : List (SimEvent Unit) :=
  [.base (.base (.becomeCandidate "a" someClock)), .base (.base (.resume 0 someClock)), .send 0,
    .push 0, .pushCopy 0, .serve 1 someClock, .serve 1 someClock, .receive 0 someClock]

theorem sim_calls_votedTwice :
    let step := step FaultScheduler.duplicateAll threeNodes
    let start := start threeNodes ()
    ∃ s body, run step start votedTwice = some s ∧
      countSteps step (handles 0) start votedTwice = 2 ∧
      (∃ t t', Takes step start votedTwice t (.send 0) t' ∧
        2 ≤ t.pushes FaultScheduler.duplicateAll 0) ∧
      ∃ t e t', Takes step start votedTwice t e t' ∧ ServesReply 0 body t t' e := by
  intro step start
  obtain ⟨s, hs, hreply⟩ : ∃ s, run step start votedTwice = some s ∧
      (s.network.calls 0).reply.isSome = true :=
    exists_run_of_any (by decide +kernel)
  obtain ⟨body, hbody⟩ := Option.isSome_iff_exists.mp hreply
  have hcount : countSteps step (handles 0) start votedTwice = 2 := by decide +kernel
  obtain ⟨hhandled, hserved⟩ := sim_calls (i := 0) hs
  refine ⟨s, body, hs, hcount, ?_, hserved body hbody⟩
  rcases hhandled with hnone | ⟨t, t', htakes, hle⟩
  · exact absurd (hcount.symm.trans hnone) (by decide)
  · exact ⟨t, t', htakes, hcount ▸ hle⟩

/-! ## The schedulers of the crate -/

theorem run_keeps (hrun : run (step before m) s es = some s') :
    Cluster.Keeps s.harness.cluster s'.harness.cluster :=
  run_rel (I := fun _ => True) (P := fun _ _ => True)
    (R := fun s s' : SimRun σ => Cluster.Keeps s.harness.cluster s'.harness.cluster)
    (fun _ => .of_eq rfl rfl) (fun h h' => h.trans h')
    (fun _ _ hstep => ⟨trivial, step_keeps hstep⟩) trivial
    (along_of_forall (fun _ _ => trivial) es s) hrun

/-- How often the scheduler has a message pushed on a link, at most. -/
def PushesAtMost (before : FaultScheduler σ) (bound : LinkId → Nat) : Prop :=
  ∀ link body faults, (before link body faults).1.pushes ≤ bound link

/-- How often a call on a link is handled, at most, in every run. -/
def HandlesAtMost (before : FaultScheduler σ) (bound : LinkId → Nat) : Prop :=
  ∀ (m : Membership) (faults : σ) (es : List (SimEvent σ)) (s : SimRun σ) (i : Nat) (rpc : Rpc),
    run (step before m) (start m faults) es = some s → s.harness.cluster.rpcs[i]? = some rpc →
      countSteps (step before m) (handles i) (start m faults) es ≤ bound ⟨rpc.src, rpc.dst⟩

theorem handlesAtMost_of_pushes {bound : LinkId → Nat} (h : PushesAtMost before bound) :
    HandlesAtMost before bound := by
  intro m faults es s i rpc hrun hrpc
  rcases handled_le (i := i) hrun with hnone | ⟨t, t', ⟨es₁, es₂, rfl, hrun₁, hstep⟩, hle⟩
  · rw [hnone]
    exact Nat.zero_le _
  · refine hle.trans ?_
    obtain ⟨u, hu, hrun₂⟩ := run_append_eq_some.mp hrun
    obtain rfl : t = u := Option.some.inj (hrun₁.symm.trans hu)
    unfold pushes
    cases hsent : t.harness.cluster.rpcs[i]? with
    | none => exact Nat.zero_le _
    | some sent =>
      obtain ⟨rpc', hrpc', hsrc, hdst, -⟩ := (run_keeps hrun₂).rpc hsent
      obtain rfl : rpc = rpc' := Option.some.inj (hrpc.symm.trans hrpc')
      rw [Option.elim_some, hsrc, hdst]
      split_ifs
      · exact h _ _ _
      · exact Nat.zero_le _

/-- Only `DuplicateAll` has a call handled twice, and over the link that
`DropLink` cuts no call is handled. -/
theorem sim_handled_once {τ : Type} (cond : LinkId → InboundMessageBody → Bool) (src dst : String)
    (rng : τ → Bool × τ) :
    HandlesAtMost FaultScheduler.alwaysDeliver (fun _ => 1) ∧
    HandlesAtMost (FaultScheduler.dropUnless cond) (fun _ => 1) ∧
    HandlesAtMost (FaultScheduler.dropLink src dst)
      (fun link => if link.src = src ∧ link.dst = dst then 0 else 1) ∧
    HandlesAtMost (FaultScheduler.randomDrop rng) (fun _ => 1) ∧
    HandlesAtMost FaultScheduler.partitionedNetwork (fun _ => 1) ∧
    HandlesAtMost (FaultScheduler.randomDelay rng) (fun _ => 1) ∧
    HandlesAtMost FaultScheduler.duplicateAll (fun _ => 2) := by
  refine ⟨handlesAtMost_of_pushes fun _ _ _ => le_rfl,
    handlesAtMost_of_pushes fun link body _ => ?_,
    handlesAtMost_of_pushes fun link _ _ => ?_,
    handlesAtMost_of_pushes fun _ _ faults => ?_,
    handlesAtMost_of_pushes fun link _ partitioned => ?_,
    handlesAtMost_of_pushes fun _ _ faults => ?_,
    handlesAtMost_of_pushes fun _ _ _ => le_rfl⟩
  · unfold FaultScheduler.dropUnless
    split_ifs <;> simp [ScheduleOutcome.pushes]
  · unfold FaultScheduler.dropLink
    split_ifs <;> simp [ScheduleOutcome.pushes]
  · unfold FaultScheduler.randomDrop
    split_ifs <;> simp [ScheduleOutcome.pushes]
  · unfold FaultScheduler.partitionedNetwork
    split_ifs <;> simp [ScheduleOutcome.pushes]
  · unfold FaultScheduler.randomDelay
    split_ifs <;> simp [ScheduleOutcome.pushes]

/-! ## The run of the harness behind it -/

/-- The step that the harness takes, if any, is one that stands. -/
def StepStands (s : SimRun σ) : SimEvent σ → Prop
  | .base e => s.harness.LogsStand e
  | .serve c clock => ∀ x ∈ s.network.recv c,
      OxideKv.LogsStand inherited s.harness.cluster (.deliver x.1.call clock)
  | .receive i clock => ∀ body ∈ (s.network.calls i).reply, ∀ msg, raftReply body = .ok msg →
      ∀ r, Reply.ofMessage msg = some r →
        OxideKv.LogsStand inherited (s.harness.cluster.withReplies [(i, r)]) (.receive 0 clock)
  | _ => True

end SimRun

def SimEvent.commands {σ : Type} : SimEvent σ → List Command
  | .base e => e.commands
  | _ => []

def Harness.withReplies (rs : List (Nat × Reply)) (h : Harness) : Harness :=
  { h with cluster := h.cluster.withReplies rs }

/-- Steps that hand over no message go the same way whatever is on the way. -/
theorem Harness.step_withReplies {m : Membership} {h h' : Harness} {e : HarnessEvent}
    (rs : List (Nat × Reply)) (he : e.IsHandover = false) (hstep : h.step m e = some h') :
    (h.withReplies rs).step m e = some (h'.withReplies rs) := by
  cases e with
  | base e =>
    obtain ⟨c, hc, rfl⟩ := Option.map_eq_some_iff.mp hstep
    exact Option.map_eq_some_iff.mpr ⟨_, Cluster.step_withReplies rs he hc, rfl⟩
  | kill | drain | replay | reset =>
    obtain rfl := Option.some.inj hstep
    rfl

namespace SimRun

variable {σ : Type} {before : FaultScheduler σ} {m : Membership} {s s' : SimRun σ}
  {e : SimEvent σ} {es : List (SimEvent σ)} {i : Nat}

/-- The harness is in the same state, and has the replies of the calls on the
way. -/
structure Simulates (s : SimRun σ) (t : Harness) : Prop where
  harness : t = s.harness.withReplies t.cluster.replies
  reply : ∀ {i : Nat} {body : InboundMessageBody}, (s.network.calls i).reply = some body →
    ∃ (j : Nat) (r : Reply), t.cluster.replies[j]? = some (i, r) ∧ body = .raft r.message

/-- The harness takes a step that stands and proposes nothing else. -/
def Matches (m : Membership) (s' : SimRun σ) (t : Harness) (e : SimEvent σ) : Prop :=
  s'.Simulates t ∨ ∃ e' t', t.step m e' = some t' ∧ t.LogsStand e' ∧
    (∀ c ∈ e'.commands, c ∈ e.commands) ∧ s'.Simulates t'

theorem heads_unique {net : Network} {j c : Nat} (hi : net.heads i c) (hj : net.heads j c) :
    i = j := by
  unfold Network.heads at hi hj
  obtain ⟨ch, hc, hi⟩ := Option.any_eq_true _ _ |>.mp hi
  obtain ⟨ch', hc', hj⟩ := Option.any_eq_true _ _ |>.mp hj
  obtain rfl : ch = ch' := Option.some.inj (hc.symm.trans hc')
  obtain ⟨msg, hmsg, hi⟩ := Option.any_eq_true _ _ |>.mp hi
  obtain ⟨msg', hmsg', hj⟩ := Option.any_eq_true _ _ |>.mp hj
  obtain rfl : msg = msg' := Option.some.inj (hmsg.symm.trans hmsg')
  exact (of_decide_eq_true hi).symm.trans (of_decide_eq_true hj)

/-- The harness does nothing where no node takes a step. -/
theorem Simulates.stays {t : Harness} (h : s.Simulates t) (hrouted : s.Routed)
    (hstep : s.step before m e = some s') (hharness : s'.harness = s.harness)
    (he : ∀ c clock, e ≠ .serve c clock) : s'.Simulates t := by
  refine ⟨hharness ▸ h.harness, fun hbody => ?_⟩
  rcases step_reply hrouted hstep hbody with hbefore | ⟨c, clock, rpc, rfl, -⟩
  · exact h.reply hbefore
  · exact absurd rfl (he c clock)

theorem serve_matches {t : Harness} {c : Nat} {clock : Clock} (h : s.Simulates t)
    (hrouted : s.Routed) (hstand : s.StepStands (.serve c clock))
    (hstep : s.step before m (.serve c clock) = some s') :
    Matches m s' t (.serve c clock) := by
  have hreply := fun {j b} => @step_reply _ _ _ _ _ _ j hrouted hstep b
  obtain ⟨msg, owner, network, rpc, hrecv, hheads, hrpc, rfl⟩ := hrouted.serve_cases hstep
  have hrpc' : t.cluster.rpcs[msg.call]? = some rpc := by
    rw [h.harness]
    exact hrpc
  have hnodes : t.cluster.nodes = s.harness.cluster.nodes := by
    rw [h.harness]
    rfl
  refine Or.inr ⟨.base (.deliver msg.call clock), _, Option.map_eq_some_iff.mpr
    ⟨_, Option.map_eq_some_iff.mpr ⟨rpc, hrpc', rfl⟩, rfl⟩, ?_, nofun, ?_, ?_⟩
  · have hdeliver := hstand _ hrecv
    refine LogsStand.congr hdeliver hnodes ?_ id trivial
    simp only [Cluster.nodeEvent]
    rw [hrpc, hrpc']
  · rw [hnodes, h.harness]
    rfl
  · intro j body hbody
    rcases hreply hbody with hbefore | ⟨c', clock', rpc', heq, hheads', hrpc₁, hbody, -⟩
    · obtain ⟨k, r, hk, hr⟩ := h.reply hbefore
      exact ⟨k, r, (List.getElem?_append_left (List.getElem?_eq_some_iff.mp hk).1).trans hk, hr⟩
    · obtain ⟨rfl, rfl⟩ := SimEvent.serve.inj heq
      obtain rfl := heads_unique hheads hheads'
      obtain rfl : rpc = rpc' := Option.some.inj (hrpc.symm.trans hrpc₁)
      rw [hnodes]
      exact ⟨_, _, List.getElem?_concat_length, hbody⟩

theorem receive_matches {t : Harness} {clock : Clock} (h : s.Simulates t)
    (hrouted : s.Routed) (hstand : s.StepStands (.receive i clock))
    (hstep : s.step before m (.receive i clock) = some s') :
    Matches m s' t (.receive i clock) := by
  have hstays := fun hharness => h.stays hrouted hstep hharness fun _ _ => by simp
  have hreply := fun {j b} => @step_reply _ _ _ _ _ _ j hrouted hstep b
  obtain ⟨rpc, hrpc, hstep⟩ := Option.bind_eq_some_iff.mp hstep
  split at hstep
  · rename_i result hwaiting hphase
    dsimp only at hstep
    rcases hresult : result.bind raftReply with e | msg <;> rw [hresult] at hstep <;>
      obtain rfl := Option.some.inj hstep
    · exact Or.inl (hstays rfl)
    · obtain ⟨body, rfl, hbody⟩ : ∃ body, result = .ok body ∧ raftReply body = .ok msg := by
        cases result with
        | error e => cases hresult
        | ok body => exact ⟨body, rfl, hresult⟩
      have hcall : (s.network.calls i).reply = some body := by rw [hphase]; rfl
      obtain ⟨k, r, hk, rfl⟩ := h.reply hcall
      obtain rfl : r.message = msg := Except.ok.inj hbody
      have hreceive := hstand _ hcall _ rfl r r.ofMessage_message
      have hrpc' : t.cluster.rpcs[i]? = some rpc := by
        rw [h.harness]
        exact hrpc
      have hnodes : t.cluster.nodes = s.harness.cluster.nodes := by
        rw [h.harness]
        rfl
      have hresumed : resumeTask i clock rpc r.message s.harness.cluster =
          Cluster.process clock rpc r { s.harness.cluster with
            rpcs := s.harness.cluster.rpcs.set i { rpc with waiting := false } } := by
        unfold resumeTask
        rw [r.ofMessage_message]
        rfl
      refine Or.inr ⟨.base (.receive k clock), { t with
        cluster := (resumeTask i clock rpc r.message s.harness.cluster).withReplies
          t.cluster.replies }, Option.map_eq_some_iff.mpr ⟨_, ?_, rfl⟩, ?_, nofun, ?_, ?_⟩
      · show (t.cluster.replies[k]?).bind _ = _
        rw [hk, Option.bind_some, hrpc', Option.bind_some, if_pos hwaiting, hresumed,
          ← Cluster.process_withReplies]
        refine congrArg (fun c => some (Cluster.process clock rpc r c)) ?_
        rw [h.harness]
        rfl
      · refine LogsStand.congr hreceive hnodes ?_ id trivial
        show (t.cluster.replies[k]?).bind _ = (s.harness.cluster.rpcs[i]?).bind _
        rw [hk, Option.bind_some, hrpc', hrpc]
      · show _ = Harness.mk _ _
        rw [h.harness]
        rfl
      · intro j body hbody
        rcases hreply hbody with hbefore | ⟨c, clock', rpc', heq, -⟩
        · exact h.reply hbefore
        · cases heq
  · cases hstep

theorem step_matches {t : Harness} (h : s.Simulates t) (hrouted : s.Routed)
    (hstand : s.StepStands e) (hstep : s.step before m e = some s') : Matches m s' t e := by
  have hstays := h.stays hrouted hstep
  cases e with
  | base e =>
    simp only [step] at hstep
    split_ifs at hstep with he
    obtain ⟨harness, hharness, rfl⟩ := Option.map_eq_some_iff.mp hstep
    have he : e.IsHandover = false := by simpa using he
    refine Or.inr ⟨e, harness.withReplies t.cluster.replies, ?_, ?_, fun c hc => hc, rfl, h.reply⟩
    · rw [h.harness]
      exact Harness.step_withReplies t.cluster.replies he hharness
    · rw [h.harness]
      cases e with
      | base e => exact LogsStand.withReplies hstand he t.cluster.replies
      | _ => trivial
  | serve c clock => exact serve_matches h hrouted hstand hstep
  | receive i clock => exact receive_matches h hrouted hstand hstep
  | send i => exact Or.inl (hstays (step_send hstep).harness (by simp))
  | wake | push | pushCopy | expire | stop =>
    obtain ⟨network, -, rfl⟩ := Option.map_eq_some_iff.mp hstep
    exact Or.inl (hstays rfl (by simp))
  | setFaults | register =>
    obtain rfl := Option.some.inj hstep
    exact Or.inl (hstays rfl (by simp))

theorem start_simulates (faults : σ) : Simulates (start m faults) (Harness.start m) := by
  refine ⟨rfl, fun hbody => ?_⟩
  rw [start_idle] at hbody
  cases hbody

/-- A run over the network, matched step by step. -/
theorem run_matches {faults : σ} {P : Command → Prop}
    (hstand : Along (step before m) StepStands (start m faults) es)
    (hP : ∀ e ∈ es, ∀ c ∈ e.commands, P c)
    (hrun : run (step before m) (start m faults) es = some s) :
    ∃ hs t, run (Harness.step m) (Harness.start m) hs = some t ∧
      Along (Harness.step m) Harness.LogsStand (Harness.start m) hs ∧
      (∀ e ∈ hs, ∀ c ∈ e.commands, P c) ∧ s.Simulates t := by
  obtain ⟨hs, t, ht, halong, -, hsim⟩ := run_simulates
    (R := fun s t => s.Routed ∧ s.Simulates t)
    (Q := fun t e => t.LogsStand e ∧ ∀ c ∈ e.commands, P c)
    (fun {s s' t e} h hcond hstep => by
      obtain ⟨hrouted, hsim⟩ := h
      obtain ⟨hstand, hP⟩ := hcond
      have hrouted' := step_routed hrouted hstep
      rcases step_matches hsim hrouted hstand hstep with hstay | ⟨e', t', ht', hstand', hsub, hsim'⟩
      · exact ⟨[], t, rfl, trivial, hrouted', hstay⟩
      · exact ⟨[e'], t', run_cons_eq_some.mpr ⟨t', ht', rfl⟩,
          ⟨⟨hstand', fun c hc => hP c (hsub c hc)⟩, fun _ _ => trivial⟩, hrouted', hsim'⟩)
    ⟨start_routed faults, start_simulates faults⟩ (hstand.and_forall hP) hrun
  exact ⟨hs, t, ht, halong.mono fun _ _ h => h.1,
    (halong.mono fun _ _ h => h.2).forall_mem ht, hsim⟩

/-- What happens over the simulated network, whatever the fault scheduler does,
is a run of the harness whose cluster hands messages over, with every node and
the oracle in the same state. -/
theorem sim_refines {faults : σ}
    (hstand : Along (step before m) StepStands (start m faults) es)
    (hrun : run (step before m) (start m faults) es = some s) :
    ∃ hs t, run (Harness.step m) (Harness.start m) hs = some t ∧
      Along (Harness.step m) Harness.LogsStand (Harness.start m) hs ∧
      t.cluster.nodes = s.harness.cluster.nodes ∧ t.model = s.harness.model := by
  obtain ⟨hs, t, ht, halong, -, hsim⟩ :=
    run_matches (P := fun _ => True) hstand (fun _ _ _ _ => trivial) hrun
  exact ⟨hs, t, ht, halong, by rw [hsim.harness]; rfl, by rw [hsim.harness]; rfl⟩

instance (s : SimRun σ) : (e : SimEvent σ) → Decidable (s.StepStands e)
  | .base e => inferInstanceAs (Decidable (s.harness.LogsStand e))
  | .serve c clock => inferInstanceAs (Decidable (∀ x ∈ s.network.recv c,
      OxideKv.LogsStand inherited s.harness.cluster (.deliver x.1.call clock)))
  | .receive i clock =>
      decidable_of_iff
        (((s.network.calls i).reply.all fun body => (raftReply body).toOption.all fun msg =>
          (Reply.ofMessage msg).all fun r => decide (OxideKv.LogsStand inherited
            (s.harness.cluster.withReplies [(i, r)]) (.receive 0 clock))) = true)
        (by
          have hok : ∀ body msg, (raftReply body).toOption = some msg ↔
              raftReply body = .ok msg := by
            intro body msg
            cases raftReply body <;> simp [Except.toOption]
          simp only [StepStands, Option.all_eq_true, decide_eq_true_eq, Option.mem_def, hok])
  | .setFaults _ | .send _ | .wake _ | .push _ | .pushCopy _ | .expire _ | .stop _ | .register _ =>
      .isTrue trivial

/-- `c` is cut off from `a`, and `a` is elected and commits an entry with `b`. -/
def electionAroundCut : List (SimEvent (List LinkId)) :=
  [.setFaults [⟨"a", "c"⟩], .base (.base (.becomeCandidate "a" someClock)),
    .base (.base (.resume 0 someClock)), .send 0, .send 1, .push 0, .serve 1 someClock,
    .receive 0 someClock, .wake 1, .base (.base (.resume 0 someClock)),
    .base (.base (.propose "a" (.set "x" "1"))), .base (.base (.leaderCheck "a")),
    .base (.base (.resume 0 someClock)), .base (.base (.resume 0 someClock)),
    .base (.base (.resume 0 someClock)), .send 2, .push 2, .serve 1 someClock,
    .receive 2 someClock, .base .drain]

theorem sim_refines_electionAroundCut :
    ∃ s, run (step FaultScheduler.partitionedNetwork threeNodes) (start threeNodes [])
        electionAroundCut = some s ∧ (s.harness.cluster.nodes "a").commitIndex = 1 ∧
      ∃ hs t, run (Harness.step threeNodes) (Harness.start threeNodes) hs = some t ∧
        t.cluster.nodes = s.harness.cluster.nodes := by
  obtain ⟨s, hs, hcommit⟩ : ∃ s, run (step FaultScheduler.partitionedNetwork threeNodes)
      (start threeNodes []) electionAroundCut = some s ∧
      (s.harness.cluster.nodes "a").commitIndex = 1 :=
    exists_run_of_any (by decide +kernel)
  obtain ⟨hs', t, ht, -, hnodes, -⟩ := sim_refines (by decide +kernel) hs
  exact ⟨s, hs, hcommit, hs', t, ht, hnodes⟩

end SimRun

end OxideKv
