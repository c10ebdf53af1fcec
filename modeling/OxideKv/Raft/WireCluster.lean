import OxideKv.Raft.InvariantRuns
import OxideKv.Raft.PreVote
import OxideKv.Raft.Rpc

/-!
# The cluster over byte streams

In `Cluster` a message is handed over whole.  Here it is not: each RPC is a
connection, on which the client writes a frame and the server answers with one.
Either stream can end after any number of bytes.  The node at the other end
reads what has come through (`dispatch_logic`), and so does the task that waits
for the reply (`call`).

`wire_refines`: a run over byte streams is a run of `Cluster`, in which every
node is in the same state.  A request that is cut short is no step, one that
gets through is `deliver`, and a reply that gets through is `receive`.  So what
holds of the runs of `Cluster` holds here: `wire_invariants`.
-/

namespace OxideKv

open ByteReader Transport RaftNode Run Cluster

/-! ## Messages on the wire -/

/-- What `send_raft` is given. -/
def Request.message : Request → RaftMessage
  | .requestVote _ args => .requestVote args
  | .preVote _ args => .requestPreVote args
  | .appendEntries args => .appendEntries args

def Reply.message : Reply → RaftMessage
  | .vote r => .voteResponse r
  | .preVote r => .preVoteResponse r
  | .append r => .appendReply r

/-- The replies that a task knows.  Others it logs. -/
def Reply.ofMessage : RaftMessage → Option Reply
  | .voteResponse r => some (.vote r)
  | .preVoteResponse r => some (.preVote r)
  | .appendReply r => some (.append r)
  | _ => none

/-- The bytes that `call` writes. -/
def Rpc.bytes (d : Prost) (rpc : Rpc) : List UInt8 :=
  (writeEnvelope .raft (d.payload rpc.request.message) []).2

/-! ## The cluster -/

structure WireCluster where
  base : Cluster
  /-- What the server has written on the connection of an RPC. -/
  answered : Nat → Option (List UInt8)
  /-- The calls that have returned an error. -/
  failed : Nat → Bool

inductive WireEvent where
  /-- A step that needs no connection. -/
  | base (e : Event)
  /-- The server reads the first bytes of the request of RPC `i`. -/
  | serve (i : Nat) (clock : Clock) (arriving : Nat) (ending : Option IoError)
  /-- The task of RPC `i` reads the first bytes of the answer. -/
  | read (i : Nat) (clock : Clock) (returning : Nat) (ending : Option IoError)

/-- `Cluster` hands the message over. -/
def Event.IsHandover : Event → Bool
  | .deliver _ _ | .receive _ _ => true
  | _ => false

namespace WireCluster

variable (d : Prost) (m : Membership)

/-- What the call returns when so many bytes have come back. -/
def replyTo (w : WireCluster) (i returning : Nat) (ending : Option IoError) :
    Except RpcError RaftMessage :=
  match readEnvelope ending (((w.answered i).getD []).take returning) with
  | (.error e, _) => .error (.io e)
  | (.ok frame, _) => RpcClient.replyMessage d frame

def step (w : WireCluster) : WireEvent → Option WireCluster
  | .base e =>
      if e.IsHandover then none else (w.base.step m e).map fun s => { w with base := s }
  | .serve i clock arriving ending =>
      if (w.answered i).isSome then none
      else
        (w.base.rpcs[i]?).bind fun rpc =>
          let served := RpcServer.dispatchLogic d clock ending (w.base.nodes rpc.dst)
            ((rpc.bytes d).take arriving)
          served.node.map fun n =>
            { w with
              base := setNode rpc.dst n w.base
              answered := Function.update w.answered i (some served.written) }
  | .read i clock returning ending =>
      (w.base.rpcs[i]?).bind fun rpc =>
        if rpc.waiting ∧ !w.failed i then
          match w.replyTo d i returning ending with
          | .error _ => some { w with failed := Function.update w.failed i true }
          | .ok msg =>
              let s := { w.base with rpcs := w.base.rpcs.set i { rpc with waiting := false } }
              some { w with
                base := ((Reply.ofMessage msg).map fun r => process clock rpc r s).getD s }
        else none

def start : WireCluster :=
  { base := Cluster.start m, answered := fun _ => none, failed := fun _ => false }

/-- `prost` decodes the messages of the step. -/
def Decodes (w : WireCluster) : WireEvent → Prop
  | .serve i clock _ _ => ∀ rpc ∈ w.base.rpcs[i]?, d.ReadsBack rpc.request.message ∧
      d.ReadsBack (rpc.request.handle clock (w.base.nodes rpc.dst)).1.message
  | _ => True

/-- The step that is taken in `Cluster`, if any, is one that stands. -/
def StepStands (f : RaftNode → Nat) (w : WireCluster) : WireEvent → Prop
  | .base e => LogsStand f w.base e
  | .serve i clock _ _ => LogsStand f w.base (.deliver i clock)
  | .read i clock returning ending => ∀ msg r, w.replyTo d i returning ending = .ok msg →
      Reply.ofMessage msg = some r →
        LogsStand f { w.base with replies := [(i, r)] } (.receive 0 clock)

end WireCluster

/-! ## Replies that nobody reads -/

namespace Cluster

variable {m : Membership} {s s' : Cluster} (rs : List (Nat × Reply))

/-- The cluster with other replies on the way. -/
def withReplies (s : Cluster) : Cluster := { s with replies := rs }

@[simp] theorem withReplies_nodes (s : Cluster) : (s.withReplies rs).nodes = s.nodes := rfl

theorem countVote_withReplies (k : Nat) (p : String) (term : Nat) (s : Cluster) :
    countVote k p term (s.withReplies rs) = (countVote k p term s).withReplies rs := by
  have hpolls : (s.withReplies rs).polls[k]? = s.polls[k]? := rfl
  unfold countVote
  rw [hpolls]
  cases s.polls[k]? with
  | none => rfl
  | some tally =>
    dsimp only
    split_ifs <;> rfl

theorem countProbe_withReplies (k : Nat) (p : String) (s : Cluster) :
    countProbe k p (s.withReplies rs) = (countProbe k p s).withReplies rs := by
  have hprobes : (s.withReplies rs).probes[k]? = s.probes[k]? := rfl
  unfold countProbe
  rw [hprobes]
  cases s.probes[k]? with
  | none => rfl
  | some tally =>
    dsimp only
    split_ifs <;> rfl

theorem process_withReplies (clock : Clock) (rpc : Rpc) (reply : Reply) (s : Cluster) :
    process clock rpc reply (s.withReplies rs) =
      (process clock rpc reply s).withReplies rs := by
  unfold process
  split
  · split_ifs
    · exact countVote_withReplies rs _ _ _ s
    · rfl
  · split_ifs
    · rfl
    · exact countProbe_withReplies rs _ _ s
    · rfl
  · rfl
  · rfl

theorem finish_withReplies (p : String) (o : Outcome) (s : Cluster) :
    finish p o (s.withReplies rs) = (finish p o s).withReplies rs := by
  unfold finish
  cases o.poll <;> cases o.probe <;> rfl

/-- Steps that hand over no message go the same way whatever is on the way. -/
theorem step_withReplies {e : Event} (he : e.IsHandover = false) (h : s.step m e = some s') :
    (s.withReplies rs).step m e = some (s'.withReplies rs) := by
  cases e with
  | deliver i clock => cases he
  | receive j clock => cases he
  | becomeCandidate p clock | becomePreCandidate p | propose p command
  | proposeBatch p commands | proposeAbortTx p txId =>
    simp only [step] at h ⊢
    split_ifs at h with hguard
    obtain rfl := Option.some.inj h
    rw [if_pos hguard]
    rfl
  | leaderCheck p =>
    simp only [step] at h ⊢
    split_ifs at h with hguard hleader
    · obtain rfl := Option.some.inj h
      rw [if_pos hguard, withReplies_nodes, if_pos hleader]
      rfl
    · obtain rfl := Option.some.inj h
      rw [if_pos hguard, withReplies_nodes, if_neg hleader]
  | resume k clock =>
    simp only [step, Option.map_eq_some_iff] at h ⊢
    obtain ⟨c, hk, rfl⟩ := h
    exact ⟨c, hk, finish_withReplies rs _ _ { s with calls := s.calls.eraseIdx k }⟩
  | restart p clock =>
    simp only [step] at h ⊢
    split_ifs at h with hguard
    obtain ⟨n, hn, rfl⟩ := Option.map_eq_some_iff.mp h
    rw [if_pos hguard]
    exact Option.map_eq_some_iff.mpr ⟨n, hn, rfl⟩

end Cluster

/-! ## The simulation -/

section Simulation

variable {d : Prost} {m : Membership} {w w' : WireCluster} {s : Cluster}

theorem Reply.message_entries (r : Reply) : r.message.entries = [] := by
  cases r <;> rfl

theorem Reply.ofMessage_message (r : Reply) : Reply.ofMessage r.message = some r := by
  cases r <;> rfl

theorem RaftNode.answer_request (clock : Clock) (n : RaftNode) (req : Request) :
    n.answer clock req.message =
      some (some (req.handle clock n).1.message, (req.handle clock n).2) := by
  cases req <;> rfl

/-- `Cluster` is in the same state, and has on the way what can be read from an
answer. -/
structure WireCluster.Simulates (d : Prost) (w : WireCluster) (s : Cluster) : Prop where
  base : s = w.base.withReplies s.replies
  answered : ∀ {i k : Nat} {bytes rest : List UInt8} {f : Frame}, w.answered i = some bytes →
    frameReader (bytes.take k) = some (f, rest) →
      ∃ (j : Nat) (r : Reply), s.replies[j]? = some (i, r) ∧
        f = (.raft, d.payload r.message) ∧ d.ReadsBack r.message

theorem WireCluster.Simulates.rpcs (h : w.Simulates d s) : s.rpcs = w.base.rpcs :=
  (congrArg Cluster.rpcs h.base).trans rfl

theorem WireCluster.Simulates.nodes (h : w.Simulates d s) : s.nodes = w.base.nodes :=
  (congrArg Cluster.nodes h.base).trans rfl

theorem Rpc.frameReader_bytes {rpc : Rpc} {k : Nat} {f : Frame} {rest : List UInt8}
    (h : frameReader ((rpc.bytes d).take k) = some (f, rest)) :
    f = (.raft, d.payload rpc.request.message) := by
  by_cases hsize : (d.payload rpc.request.message).length ≤ maxFrameBytes
  · have hwrite := writeEnvelope_ok (f := (.raft, d.payload rpc.request.message)) hsize []
    have hbytes : rpc.bytes d = envelope (.raft, d.payload rpc.request.message) :=
      congrArg Prod.snd hwrite
    rw [hbytes] at h
    exact ((frameReader_take_iff (g := (.raft, d.payload rpc.request.message)) hsize k).mp
      ⟨rest, h⟩).1
  · obtain ⟨e, hwrite, -⟩ := writeEnvelope_refused .raft
      (by omega : _ < (d.payload rpc.request.message).length) []
    have hbytes : rpc.bytes d = [] := congrArg Prod.snd hwrite
    rw [hbytes, List.take_nil, frameReader_nil] at h
    cases h

/-- A condition that reads the nodes and the call of a step. -/
theorem LogsStand.congr {f : RaftNode → Nat} {s t : Cluster} {e e' : Event}
    (h : LogsStand f s e) (hnodes : t.nodes = s.nodes) (hevent : t.nodeEvent e' = s.nodeEvent e)
    (hcrash : ¬e'.IsCrash) (hsends : t.SendsForTerm e') : LogsStand f t e' := by
  refine ⟨⟨hcrash, ?_⟩, hsends, ?_⟩
  · intro c hc
    rw [hnodes]
    exact h.votes.2 c (hevent ▸ hc)
  · intro c hc
    have hshows : t.Shows c.1 = s.Shows c.1 := by
      funext q k
      unfold Cluster.Shows
      rw [hnodes]
    rw [hnodes, hshows]
    exact h.slack c (hevent ▸ hc)

/-- Steps that hand over no message do not look at what is on the way. -/
theorem LogsStand.withReplies {f : RaftNode → Nat} {s : Cluster} {e : Event}
    (h : LogsStand f s e) (he : e.IsHandover = false) (rs : List (Nat × Reply)) :
    LogsStand f (s.withReplies rs) e := by
  refine LogsStand.congr h rfl ?_ h.votes.1 ?_
  · cases e with
    | deliver | receive => cases he
    | _ => rfl
  · have hsends := h.sends
    cases e with
    | resume k clock => exact hsends
    | _ => trivial

theorem step_base_simulates (h : w.Simulates d s) {e : Event}
    (hstep : w.step d m (.base e) = some w') :
    ∃ s', s.step m e = some s' ∧ w'.Simulates d s' ∧ e.IsHandover = false := by
  simp only [WireCluster.step] at hstep
  split_ifs at hstep with he
  obtain ⟨t, ht, rfl⟩ := Option.map_eq_some_iff.mp hstep
  have he : e.IsHandover = false := by simpa using he
  refine ⟨t.withReplies s.replies, ?_, ⟨rfl, h.answered⟩, he⟩
  rw [h.base]
  exact step_withReplies s.replies he ht

/-- A request that gets through is handled; nothing else happens to a node. -/
theorem step_serve_simulates (h : w.Simulates d s) {i arriving : Nat} {clock : Clock}
    {ending : Option IoError} (hdec : w.Decodes d (.serve i clock arriving ending))
    (hentries : ∀ rpc ∈ s.rpcs, ∀ e ∈ rpc.request.message.entries, e.command.isReplicated)
    (hstep : w.step d m (.serve i clock arriving ending) = some w') :
    w'.Simulates d s ∨ ∃ s', s.step m (.deliver i clock) = some s' ∧ w'.Simulates d s' := by
  simp only [WireCluster.step] at hstep
  split_ifs at hstep with hfresh
  obtain ⟨rpc, hrpc, hserved⟩ := Option.bind_eq_some_iff.mp hstep
  obtain ⟨n, hn, rfl⟩ := Option.map_eq_some_iff.mp hserved
  obtain ⟨hreq, hback⟩ := hdec rpc hrpc
  have hrpcs := h.rpcs
  have hnodes := h.nodes
  rcases hframe : frameReader ((rpc.bytes d).take arriving) with _ | ⟨f, rest⟩
  · -- the request is cut short
    obtain ⟨hnode, hwritten⟩ :=
      RpcServer.dispatchLogic_of_cut d clock (w.base.nodes rpc.dst) hframe ending
    rw [hnode] at hn
    obtain rfl := Option.some.inj hn
    refine Or.inl ⟨?_, ?_⟩
    · rw [setNode_self]
      exact h.base
    · intro j k bytes rest f hbytes hread
      dsimp only at hbytes
      rw [Function.update_apply] at hbytes
      split_ifs at hbytes with hj
      · rw [hwritten] at hbytes
        obtain rfl := Option.some.inj hbytes
        rw [List.take_nil, frameReader_nil] at hread
        cases hread
      · exact h.answered hbytes hread
  · obtain rfl := Rpc.frameReader_bytes hframe
    have hserve := RpcServer.dispatchLogic_of_frame d clock (w.base.nodes rpc.dst) hframe ending
    rw [hserve] at hn ⊢
    obtain ⟨hnode, hwritten⟩ := RpcClient.respondFrame_raft clock (w.base.nodes rpc.dst) hreq
      (hentries rpc (hrpcs ▸ List.mem_of_getElem? hrpc))
    rw [hnode, answer_request] at hn
    obtain rfl := Option.some.inj hn
    refine Or.inr ⟨_, Option.map_eq_some_iff.mpr ⟨rpc, hrpcs ▸ hrpc, rfl⟩, ?_, ?_⟩
    · rw [h.base]
      rfl
    · intro j k bytes rest f hbytes hread
      dsimp only at hbytes
      rw [Function.update_apply] at hbytes
      split_ifs at hbytes with hj
      · subst hj
        obtain rfl := Option.some.inj hbytes
        obtain ⟨r, n', hanswer, rfl, -⟩ := (hwritten k f).mp ⟨rest, hread⟩
        rw [answer_request] at hanswer
        cases hanswer
        refine ⟨s.replies.length, (rpc.request.handle clock (w.base.nodes rpc.dst)).1, ?_, rfl,
          hback⟩
        rw [hnodes, List.getElem?_append_right le_rfl, Nat.sub_self]
        rfl
      · obtain ⟨j', r, hr, hf, hr'⟩ := h.answered hbytes hread
        exact ⟨j', r, by rw [List.getElem?_append_left (List.getElem?_eq_some_iff.mp hr).1, hr],
          hf, hr'⟩

/-- A reply that a call returns is one that was sent. -/
theorem WireCluster.Simulates.replyTo (h : w.Simulates d s) {i returning : Nat}
    {ending : Option IoError} {msg : RaftMessage} (hmsg : w.replyTo d i returning ending = .ok msg) :
    ∃ (j : Nat) (r : Reply), s.replies[j]? = some (i, r) ∧ msg = r.message := by
  unfold WireCluster.replyTo at hmsg
  rcases hread : readEnvelope ending (((w.answered i).getD []).take returning) with
    ⟨e | _ | f, rest⟩
  · rw [hread] at hmsg
    cases hmsg
  · rw [hread] at hmsg
    cases hmsg
  · have hframe : frameReader (((w.answered i).getD []).take returning) = some (f, rest) := by
      rw [← (accepts_readEnvelope : accepts (readEnvelope ending) = frameReader)]
      simp only [accepts, hread]
    rcases hanswered : w.answered i with _ | bytes
    · rw [hanswered, Option.getD_none, List.take_nil, frameReader_nil] at hframe
      cases hframe
    · rw [hanswered, Option.getD_some] at hframe
      obtain ⟨j, r, hj, rfl, hback⟩ := h.answered hanswered hframe
      rw [hread] at hmsg
      have hreply := RpcClient.replyMessage_payload hback r.message_entries .raft
      exact ⟨j, r, hj, Except.ok.inj (hmsg.symm.trans hreply)⟩

/-- A reply that gets through is processed; a call that fails does nothing. -/
theorem step_read_simulates (h : w.Simulates d s) {i returning : Nat} {clock : Clock}
    {ending : Option IoError} (hstep : w.step d m (.read i clock returning ending) = some w') :
    w'.Simulates d s ∨ ∃ j r s', w.replyTo d i returning ending = .ok r.message ∧
      s.replies[j]? = some (i, r) ∧ s.step m (.receive j clock) = some s' ∧
      w'.Simulates d s' := by
  simp only [WireCluster.step] at hstep
  obtain ⟨rpc, hrpc, hread⟩ := Option.bind_eq_some_iff.mp hstep
  split_ifs at hread with hwaiting
  rcases hreply : w.replyTo d i returning ending with e | msg
  · rw [hreply] at hread
    obtain rfl := Option.some.inj hread
    exact Or.inl ⟨h.base, h.answered⟩
  · rw [hreply] at hread
    obtain rfl := Option.some.inj hread
    obtain ⟨j, r, hj, rfl⟩ := h.replyTo hreply
    let later : Cluster :=
      { w.base with rpcs := w.base.rpcs.set i { rpc with waiting := false } }
    have hlater : ({ s with rpcs := w.base.rpcs.set i { rpc with waiting := false } } : Cluster) =
        later.withReplies s.replies := by
      rw [h.base]
      rfl
    refine Or.inr ⟨j, r, (process clock rpc r later).withReplies s.replies, rfl, hj, ?_, ?_,
      h.answered⟩
    · show (s.replies[j]?).bind _ = _
      rw [hj, Option.bind_some, h.rpcs, hrpc, Option.bind_some, if_pos hwaiting.1, hlater,
        process_withReplies]
    · rw [Reply.ofMessage_message]
      rfl

end Simulation

/-! ## Runs -/

/-- Only commands that travel in the log are proposed. -/
def WireEvent.IsReplicated : WireEvent → Prop
  | .base e => ∀ c ∈ e.commands, c.isReplicated
  | _ => True

section Runs

variable {f : RaftNode → Nat} {d : Prost} {m : Membership} {w w' : WireCluster} {s : Cluster}

/-- What the run of `Cluster` is known to keep. -/
structure WireCluster.Matched (f : RaftNode → Nat) (d : Prost) (m : Membership)
    (w : WireCluster) (s : Cluster) : Prop where
  simulates : w.Simulates d s
  backed : LogBacked f m s
  commands : s.CommandsFrom fun c => c.isReplicated

theorem start_matched : (WireCluster.start m).Matched f d m (Cluster.start m) where
  simulates := ⟨rfl, fun hbytes => by cases hbytes⟩
  backed := start_logBacked f m
  commands := start_commandsFrom _ m

/-- A step of `Cluster` that matches. -/
theorem WireCluster.Matched.step (hf : IsSlack f) (h : w.Matched f d m s) {e : Event}
    {s' : Cluster} (hstand : LogsStand f s e) (hcommands : ∀ c ∈ e.commands, c.isReplicated)
    (hstep : s.step m e = some s') (hsim : w'.Simulates d s') : w'.Matched f d m s' := by
  refine ⟨hsim, step_logBacked hf h.backed hstand hstep, ?_⟩
  obtain ⟨a, fed, hrel, -⟩ := h.backed
  refine step_commandsFrom hrel.votes h.commands hcommands ?_ hstep
  rintro p clock rfl
  exact hstand.votes.1 trivial

theorem step_matched (hf : IsSlack f) (h : w.Matched f d m s) {e : WireEvent}
    (hdec : w.Decodes d e) (hstand : w.StepStands d f e) (hreplicated : e.IsReplicated)
    (hstep : w.step d m e = some w') :
    ∃ es s', run (Cluster.step m) s es = some s' ∧ Along (Cluster.step m) (LogsStand f) s es ∧
      w'.Matched f d m s' := by
  have hstay : w'.Simulates d s → ∃ es s', run (Cluster.step m) s es = some s' ∧
      Along (Cluster.step m) (LogsStand f) s es ∧ w'.Matched f d m s' := fun hsim =>
    ⟨[], s, rfl, trivial, hsim, h.backed, h.commands⟩
  have hone : ∀ e' s', s.step m e' = some s' → w'.Simulates d s' → LogsStand f s e' →
      (∀ c ∈ e'.commands, c.isReplicated) → ∃ es s', run (Cluster.step m) s es = some s' ∧
        Along (Cluster.step m) (LogsStand f) s es ∧ w'.Matched f d m s' := by
    intro e' s' hs' hsim hstand' hcommands
    exact ⟨[e'], s', run_cons_eq_some.mpr ⟨s', hs', rfl⟩, ⟨hstand', fun _ _ => trivial⟩,
      h.step hf hstand' hcommands hs' hsim⟩
  have hnodes := h.simulates.nodes
  have hrpcs := h.simulates.rpcs
  cases e with
  | base e =>
    obtain ⟨s', hs', hsim, he⟩ := step_base_simulates h.simulates hstep
    refine hone e s' hs' hsim ?_ hreplicated
    rw [h.simulates.base]
    exact LogsStand.withReplies hstand he s.replies
  | serve i clock arriving ending =>
    have hentries : ∀ rpc ∈ s.rpcs, ∀ e ∈ rpc.request.message.entries,
        e.command.isReplicated := by
      intro rpc hrpc
      cases hreq : rpc.request with
      | appendEntries args => exact h.commands.sent rpc hrpc args hreq
      | requestVote poll args | preVote probe args => exact fun e he => by cases he
    rcases step_serve_simulates h.simulates hdec hentries hstep with hsim | ⟨s', hs', hsim⟩
    · exact hstay hsim
    · refine hone _ s' hs' hsim (LogsStand.congr hstand hnodes ?_ id trivial)
        (fun c hc => by cases hc)
      simp only [nodeEvent, hrpcs]
  | read i clock returning ending =>
    rcases step_read_simulates h.simulates hstep with hsim | ⟨j, r, s', hreply, hj, hs', hsim⟩
    · exact hstay hsim
    · have hreceive := hstand r.message r hreply r.ofMessage_message
      refine hone _ s' hs' hsim (LogsStand.congr hreceive hnodes ?_ id trivial)
        (fun c hc => by cases hc)
      simp only [nodeEvent, hrpcs, hj]
      rfl

/-- A run over byte streams, matched step by step. -/
theorem run_matched (hf : IsSlack f) {ws : List WireEvent}
    (hdec : Along (WireCluster.step d m) (WireCluster.Decodes d) (WireCluster.start m) ws)
    (hstand : Along (WireCluster.step d m) (WireCluster.StepStands d f) (WireCluster.start m) ws)
    (hreplicated : ∀ e ∈ ws, e.IsReplicated)
    (hrun : run (WireCluster.step d m) (WireCluster.start m) ws = some w) :
    ∃ es s, run (Cluster.step m) (Cluster.start m) es = some s ∧
      Along (Cluster.step m) (LogsStand f) (Cluster.start m) es ∧ w.Matched f d m s := by
  refine run_simulates ?_ start_matched ((hdec.and hstand).and_forall hreplicated) hrun
  rintro w w' s e h ⟨⟨hdec, hstand⟩, hreplicated⟩ hstep
  exact step_matched hf h hdec hstand hreplicated hstep

/-- What happens over byte streams that end anywhere is a run of `Cluster`, with
every node in the same state. -/
theorem wire_refines (hf : IsSlack f) {ws : List WireEvent}
    (hdec : Along (WireCluster.step d m) (WireCluster.Decodes d) (WireCluster.start m) ws)
    (hstand : Along (WireCluster.step d m) (WireCluster.StepStands d f) (WireCluster.start m) ws)
    (hreplicated : ∀ e ∈ ws, e.IsReplicated)
    (hrun : run (WireCluster.step d m) (WireCluster.start m) ws = some w) :
    ∃ es s, run (Cluster.step m) (Cluster.start m) es = some s ∧
      Along (Cluster.step m) (LogsStand f) (Cluster.start m) es ∧ s.nodes = w.base.nodes := by
  obtain ⟨es, s, hs, halong, hmatched⟩ := run_matched hf hdec hstand hreplicated hrun
  exact ⟨es, s, hs, halong, hmatched.simulates.nodes⟩

instance (f : RaftNode → Nat) (w : WireCluster) (e : WireEvent) :
    Decidable (w.StepStands d f e) :=
  decidable_of_iff
    ((match e with
      | .base e => decide (LogsStand f w.base e)
      | .serve i clock _ _ => decide (LogsStand f w.base (.deliver i clock))
      | .read i clock returning ending =>
          match w.replyTo d i returning ending with
          | .error _ => true
          | .ok msg => (Reply.ofMessage msg).all fun r =>
              decide (LogsStand f { w.base with replies := [(i, r)] } (.receive 0 clock))) = true)
    (by
      cases e with
      | base e => simp [WireCluster.StepStands]
      | serve i clock arriving ending => simp [WireCluster.StepStands]
      | read i clock returning ending =>
        cases h : w.replyTo d i returning ending with
        | error e => simp [WireCluster.StepStands, h]
        | ok msg =>
          simp only [WireCluster.StepStands, h, Option.all_eq_true, decide_eq_true_eq]
          constructor
          · intro hall msg' r heq hr
            obtain rfl := Except.ok.inj heq
            exact hall r hr
          · exact fun hall r hr => hall msg r rfl hr)

/-- The step handles one of the requests, with one of the replies. -/
def WireCluster.Exchanges (requests : List Request) (replies : List Reply) (w : WireCluster) :
    WireEvent → Prop
  | .serve i clock _ _ => ∀ rpc ∈ w.base.rpcs[i]?, rpc.request ∈ requests ∧
      (rpc.request.handle clock (w.base.nodes rpc.dst)).1 ∈ replies
  | _ => True

instance (requests : List Request) (replies : List Reply) (w : WireCluster) (e : WireEvent) :
    Decidable (w.Exchanges requests replies e) :=
  decidable_of_iff
    ((match e with
      | .serve i clock _ _ => decide (∀ rpc ∈ w.base.rpcs[i]?, rpc.request ∈ requests ∧
          (rpc.request.handle clock (w.base.nodes rpc.dst)).1 ∈ replies)
      | _ => true) = true)
    (by cases e <;> simp only [WireCluster.Exchanges, decide_eq_true_eq])

/-- Messages that are known can be decoded. -/
theorem WireCluster.Exchanges.decodes {requests : List Request} {replies : List Reply}
    (hrequests : ∀ req ∈ requests, d.ReadsBack req.message)
    (hreplies : ∀ r ∈ replies, d.ReadsBack r.message) {e : WireEvent}
    (h : w.Exchanges requests replies e) : w.Decodes d e := by
  cases e with
  | serve i clock arriving ending =>
    intro rpc hrpc
    obtain ⟨hreq, hreply⟩ := h rpc hrpc
    exact ⟨hrequests _ hreq, hreplies _ hreply⟩
  | base e | read i clock returning ending => trivial

/-- The messages of an election. -/
def electionRequests : List Request :=
  [.requestVote 0 { term := 1, candidateId := "a", lastLogIndex := 0, lastLogTerm := 0 }]

def electionReplies : List Reply := [.vote { term := 1, voteGranted := true }]

def electionProst : Prost :=
  .proto3 (electionRequests.map Request.message ++ electionReplies.map Reply.message) [] []

/-- `a` is elected with the vote of `b`.  The request to `c` is cut short. -/
def electionOverBytes : List WireEvent :=
  [.base (.becomeCandidate "a" someClock), .base (.resume 0 someClock),
    .serve 1 someClock 7 none, .serve 0 someClock 100 none, .read 1 someClock 100 none,
    .read 0 someClock 100 none, .base (.resume 0 someClock)]

theorem electionOverBytes_decodes : Along (WireCluster.step electionProst threeNodes)
    (WireCluster.Decodes electionProst) (WireCluster.start threeNodes) electionOverBytes := by
  have hexchanges : Along (WireCluster.step electionProst threeNodes)
      (WireCluster.Exchanges electionRequests electionReplies) (WireCluster.start threeNodes)
      electionOverBytes := by
    decide +kernel
  have hne : electionProst.payload (Request.requestVote 0
      { term := 1, candidateId := "a", lastLogIndex := 0, lastLogTerm := 0 }).message ≠
      electionProst.payload (Reply.vote { term := 1, voteGranted := true }).message := by
    decide +kernel
  refine hexchanges.mono fun w e h => h.decodes (fun req hreq => ?_) (fun r hr => ?_)
  · obtain rfl := List.mem_singleton.mp hreq
    refine Prost.proto3_readsBack List.mem_cons_self fun m hm heq => ?_
    rcases List.mem_pair.mp hm with rfl | rfl
    · rfl
    · exact absurd heq.symm hne
  · obtain rfl := List.mem_singleton.mp hr
    refine Prost.proto3_readsBack (List.mem_cons_of_mem _ List.mem_cons_self) fun m hm heq => ?_
    rcases List.mem_pair.mp hm with rfl | rfl
    · exact absurd heq hne
    · rfl

theorem electionOverBytes_isReplicated : ∀ e ∈ electionOverBytes, e.IsReplicated := by
  simp [electionOverBytes, WireEvent.IsReplicated, Event.commands]

theorem wire_refines_election :
    ∃ w, run (WireCluster.step electionProst threeNodes) (WireCluster.start threeNodes)
        electionOverBytes = some w ∧ (w.base.nodes "a").state = .leader ∧
      ∃ es s, run (Cluster.step threeNodes) (Cluster.start threeNodes) es = some s ∧
        s.nodes = w.base.nodes := by
  obtain ⟨w, hw, hleader⟩ : ∃ w, run (WireCluster.step electionProst threeNodes)
      (WireCluster.start threeNodes) electionOverBytes = some w ∧
      (w.base.nodes "a").state = .leader :=
    exists_run_of_any (by decide +kernel)
  obtain ⟨es, s, hs, -, hnodes⟩ := wire_refines inherited_isSlack electionOverBytes_decodes
    (by decide +kernel) electionOverBytes_isReplicated hw
  exact ⟨w, hw, hleader, es, s, hs, hnodes⟩

/-- The checks of a scenario find nothing over byte streams either. -/
theorem wire_invariants {ws : List WireEvent}
    (hdec : Along (WireCluster.step d m) (WireCluster.Decodes d) (WireCluster.start m) ws)
    (hstand : Along (WireCluster.step d m) (WireCluster.StepStands d inherited)
      (WireCluster.start m) ws)
    (hreplicated : ∀ e ∈ ws, e.IsReplicated)
    (hrun : run (WireCluster.step d m) (WireCluster.start m) ws = some w) :
    (simCluster m w.base).checkElectionSafety = .pass ∧
      (simCluster m w.base).checkLogMatchingProperty = .pass ∧
      (simCluster m w.base).checkStateMachineSafety = .pass ∧
      (simCluster m w.base).checkCommittedEntryDurability = .pass := by
  obtain ⟨es, s, hs, halong, hmatched⟩ :=
    run_matched inherited_isSlack hdec hstand hreplicated hrun
  have hsame : simCluster m w.base = simCluster m s := by
    simp only [simCluster, hmatched.simulates.nodes]
  rw [hsame]
  have hup := run_upToCommit inherited_isSlack halong hs
  obtain ⟨a, fed, hrel, -⟩ := hmatched.backed
  exact hrel.logs.checks hup

theorem wire_invariants_election :
    ∃ w, run (WireCluster.step electionProst threeNodes) (WireCluster.start threeNodes)
        electionOverBytes = some w ∧ (w.base.nodes "a").state = .leader ∧
      (simCluster threeNodes w.base).checkElectionSafety = .pass := by
  obtain ⟨w, hw, hleader⟩ : ∃ w, run (WireCluster.step electionProst threeNodes)
      (WireCluster.start threeNodes) electionOverBytes = some w ∧
      (w.base.nodes "a").state = .leader :=
    exists_run_of_any (by decide +kernel)
  exact ⟨w, hw, hleader, (wire_invariants electionOverBytes_decodes (by decide +kernel)
    electionOverBytes_isReplicated hw).1⟩

end Runs

end OxideKv
