import OxideKv.Raft.Backlog

/-!
# A call over a connection

`rpc.rs`: a client connects, writes one request in a frame, and reads one frame
with the reply.  The server reads the request in two parts, picks the handler
that the first byte names, and writes the reply.  `handle_join_cluster` of
`node.rs` is here too, as only a call reaches it.

A connection may end anywhere.  `Connection` says how many bytes get through in
each direction and how the stream ends after them.  The code that `prost`
generates is a parameter.

* `dispatchLogic_of_frame`, `dispatchLogic_of_cut`: the handler sees whole
  frames, or the connection is nothing to the node.
* `RpcClient.call_spec`: a request is handled once or not at all, and what a
  call returns is the reply of the handler.
-/

namespace OxideKv

open ByteReader Transport

/-- Errors of the two RPC surfaces. -/
inductive RpcError where
  | io (e : IoError)
  | decode (message : String)
  | other (message : String)
  /-- The task is gone, and the lock of the node is poisoned. -/
  | panicked
deriving Repr, DecidableEq

/-! ## The handlers -/

namespace RaftNode

/-- `handle_join_cluster`. -/
def handleJoinCluster (req : JoinClusterRequest) (n : RaftNode) : JoinClusterResponse :=
  let reject (reason : String) : JoinClusterResponse :=
    { accepted := false
      term := n.currentTerm
      leaderAddr := n.nodeId
      peerAddrs := []
      reason := reason }
  let servers := n.currentConfig.allServers
  if n.state ≠ .leader then reject "not leader"
  else if req.candidateAddr = n.nodeId then reject "candidate_addr is the leader itself"
  else if servers.any (fun s => s.addr == req.candidateAddr || s.nodeId == req.candidateAddr) then
    reject "candidate_addr is already a cluster member"
  else
    { accepted := true
      term := n.currentTerm
      leaderAddr := n.nodeId
      peerAddrs := (servers.map ServerId.addr).filter fun addr =>
        addr ≠ n.nodeId ∧ addr ≠ req.candidateAddr
      reason := "" }

/-- The dispatch of `handle_raft_rpc_inner`.  Other messages get no reply, and
a handler that panics leaves nothing. -/
def answer (clock : Clock) (n : RaftNode) : RaftMessage → Option (Option RaftMessage × RaftNode)
  | .requestVote args =>
      let (reply, n') := handleRequestVote clock args n
      some (some (.voteResponse reply), n')
  | .requestPreVote args =>
      let (reply, n') := handlePreVote clock args n
      some (some (.preVoteResponse reply), n')
  | .appendEntries args =>
      let (reply, n') := handleAppendEntries clock args n
      some (some (.appendReply reply), n')
  | .installSnapshot args =>
      (handleInstallSnapshot clock args n).map fun (reply, n') =>
        (some (.installSnapshotReply reply), n')
  | .joinCluster req => some (some (.joinClusterResponse (handleJoinCluster req n)), n)
  | _ => some (none, n)

end RaftNode

/-! ## The server -/

/-- What a connection leaves behind on the side of the server.  There is no node
any more after a panic. -/
structure Served where
  node : Option RaftNode
  written : List UInt8
  result : Except RpcError Unit

namespace RpcServer

/-- The payload of a request is decoded and answered.  The reply goes into a
frame of the same kind. -/
def respond {α : Type} (kind : DispatchKind) (decode : List UInt8 → Except String α)
    (handler : RaftNode → α → Option (Option (List UInt8) × RaftNode)) (n : RaftNode)
    (reqBuf : List UInt8) : Served :=
  match decode reqBuf with
  | .error e => { node := some n, written := [], result := .error (.decode e) }
  | .ok req =>
      match handler n req with
      | none => { node := none, written := [], result := .error .panicked }
      | some (none, n') => { node := some n', written := [], result := .ok () }
      | some (some payload, n') =>
          match writeEnvelope kind payload [] with
          | (.ok _, written) => { node := some n', written := written, result := .ok () }
          | (.error e, written) =>
              { node := some n', written := written, result := .error (.io e) }

/-- The lines that both handlers share. -/
def handleRpc (respond : List UInt8 → Served) (ending : Option IoError) (n : RaftNode)
    (bytes : List UInt8) : Served :=
  match readEnvelopePayload ending bytes with
  | (.error e, _) => { node := some n, written := [], result := .error (.io e) }
  | (.ok none, _) => { node := some n, written := [], result := .ok () }
  | (.ok (some reqBuf), _) => respond reqBuf

variable (d : Prost) (clock : Clock)

def respondRaft : RaftNode → List UInt8 → Served :=
  respond .raft d.raftMessage.decode fun n req =>
    (n.answer clock (decodeDomain req)).map fun (response, n') =>
      (response.map d.payload, n')

def respondVote : RaftNode → List UInt8 → Served :=
  respond .vote d.voteRequest.decode fun n req =>
    let (reply, n') := RaftNode.handleTxVoteRequest clock req n
    some (some (d.voteResponse.encodeToVec reply), n')

/-- `handle_raft_rpc_inner`. -/
def handleRaftRpcInner (ending : Option IoError) (n : RaftNode) : List UInt8 → Served :=
  handleRpc (respondRaft d clock n) ending n

/-- `handle_vote_rpc_inner`. -/
def handleVoteRpcInner (ending : Option IoError) (n : RaftNode) : List UInt8 → Served :=
  handleRpc (respondVote d clock n) ending n

/-- `dispatch_logic`. -/
def dispatchLogic (ending : Option IoError) (n : RaftNode) (bytes : List UInt8) : Served :=
  match readEnvelopeDiscriminator ending bytes with
  | (.error e, _) => { node := some n, written := [], result := .error (.io e) }
  | (.ok none, _) => { node := some n, written := [], result := .ok () }
  | (.ok (some .raft), rest) => handleRaftRpcInner d clock ending n rest
  | (.ok (some .vote), rest) => handleVoteRpcInner d clock ending n rest

/-- The handler of a whole frame. -/
def respondFrame (n : RaftNode) : Frame → Served
  | (.raft, payload) => respondRaft d clock n payload
  | (.vote, payload) => respondVote d clock n payload

end RpcServer

/-! ## The client -/

/-- How far the two streams of a connection get, and how they end then. -/
structure Connection where
  arriving : Nat
  requestEnding : Option IoError
  returning : Nat
  replyEnding : Option IoError

namespace RpcClient

variable (d : Prost) (clock : Clock)

/-- The lines that `call` and `send_tx_vote_rpc` share, with the server at the
other end.  The connection may not come about. -/
def exchange (conn : Except RpcError Connection) (kind : DispatchKind) (payload : List UInt8)
    (n : RaftNode) : Except RpcError (Option Frame) × Option RaftNode :=
  match conn with
  | .error e => (.error e, some n)
  | .ok c =>
      let sent := writeEnvelope kind payload []
      let served := RpcServer.dispatchLogic d clock c.requestEnding n (sent.2.take c.arriving)
      match sent.1 with
      | .error e => (.error (.io e), served.node)
      | .ok _ =>
          match readEnvelope c.replyEnding (served.written.take c.returning) with
          | (.error e, _) => (.error (.io e), served.node)
          | (.ok frame, _) => (.ok frame, served.node)

/-- The end of `call`.  The kind of the frame that comes back is not looked
at. -/
def replyMessage : Option Frame → Except RpcError RaftMessage
  | none => .error (.other "RPC peer closed connection before reply")
  | some (_, respBuf) =>
      match d.raftMessage.decode respBuf with
      | .error e => .error (.decode e)
      | .ok respPb => .ok (decodeDomain respPb)

/-- `call`. -/
def call (conn : Except RpcError Connection) (msg : RaftMessage) (n : RaftNode) :
    Except RpcError RaftMessage × Option RaftNode :=
  match exchange d clock conn .raft (d.payload msg) n with
  | (.error e, n') => (.error e, n')
  | (.ok frame, n') => (replyMessage d frame, n')

/-- `send_install_snapshot_rpc`. -/
def sendInstallSnapshotRpc (conn : Except RpcError Connection) (args : InstallSnapshotArgs)
    (n : RaftNode) : Except RpcError InstallSnapshotReplyArgs × Option RaftNode :=
  match call d clock conn (.installSnapshot args) n with
  | (.error e, n') => (.error e, n')
  | (.ok (.installSnapshotReply reply), n') => (.ok reply, n')
  | (.ok _, n') => (.error (.other "Unexpected RPC response type for InstallSnapshot"), n')

/-- `{:?}`. -/
def debugKind : DispatchKind → String
  | .raft => "Raft"
  | .vote => "Vote"

/-- `send_tx_vote_rpc`. -/
def sendTxVoteRpc (conn : Except RpcError Connection) (req : VoteRequest) (n : RaftNode) :
    Except RpcError VoteResponse × Option RaftNode :=
  match exchange d clock conn .vote (d.voteRequest.encodeToVec req) n with
  | (.error e, n') => (.error e, n')
  | (.ok none, n') => (.error (.other "Vote RPC peer closed connection before reply"), n')
  | (.ok (some (kind, respBuf)), n') =>
      if kind ≠ .vote then
        (.error (.other s!"Vote RPC peer replied with wrong discriminator {debugKind kind}"), n')
      else
        match d.voteResponse.decode respBuf with
        | .error e => (.error (.decode e), n')
        | .ok resp => (.ok resp, n')

end RpcClient

/-! ## A whole frame, or nothing -/

/-- The parts in which the server reads make up the frame. -/
theorem frameReader_parts (ending : Option IoError) (bytes : List UInt8) :
    frameReader bytes = (accepts (readEnvelopeDiscriminator ending) bytes).bind fun p =>
      (accepts (readEnvelopePayload ending) p.2).map fun q => ((p.1, q.1), q.2) := by
  have hparts : accepts (readDispatched ending) = frameReader := accepts_readDispatched
  rw [← hparts, readDispatched]
  simp only [accepts_bind, accepts_pure]
  show ((accepts _ bytes).bind fun p => (accepts _ p.2).bind fun q => some ((p.1, q.1), q.2)) = _
  simp only [Option.map_eq_bind, Function.comp_def]

namespace RpcServer

theorem dispatchLogic_of_frame (d : Prost) (clock : Clock) (n : RaftNode)
    {bytes rest : List UInt8} {f : Frame} (h : frameReader bytes = some (f, rest))
    (ending : Option IoError) :
    dispatchLogic d clock ending n bytes = respondFrame d clock n f := by
  rw [frameReader_parts ending] at h
  obtain ⟨⟨kind, mid⟩, hkind, h⟩ := Option.bind_eq_some_iff.mp h
  obtain ⟨⟨payload, rest'⟩, hpayload, heq⟩ := Option.map_eq_some_iff.mp h
  obtain ⟨rfl, rfl⟩ := Prod.mk.inj heq
  rcases hfirst : readEnvelopeDiscriminator ending bytes with ⟨_ | _ | kind', mid'⟩
  case error => simp [accepts, hfirst] at hkind
  case ok.none => simp [accepts, hfirst] at hkind
  simp only [accepts, hfirst, Option.some.injEq, Prod.mk.injEq] at hkind
  obtain ⟨rfl, rfl⟩ := hkind
  rcases hsecond : readEnvelopePayload ending mid' with ⟨_ | _ | payload', rest''⟩
  case error => simp [accepts, hsecond] at hpayload
  case ok.none => simp [accepts, hsecond] at hpayload
  simp only [accepts, hsecond, Option.some.injEq, Prod.mk.injEq] at hpayload
  obtain ⟨rfl, rfl⟩ := hpayload
  cases kind' <;> simp only [dispatchLogic, hfirst, handleRaftRpcInner, handleVoteRpcInner,
    handleRpc, hsecond, respondFrame]

/-- What is no whole frame does nothing. -/
theorem dispatchLogic_of_cut (d : Prost) (clock : Clock) (n : RaftNode) {bytes : List UInt8}
    (h : frameReader bytes = none) (ending : Option IoError) :
    (dispatchLogic d clock ending n bytes).node = some n ∧
      (dispatchLogic d clock ending n bytes).written = [] := by
  rw [frameReader_parts ending, Option.bind_eq_none_iff] at h
  unfold dispatchLogic
  rcases hfirst : readEnvelopeDiscriminator ending bytes with ⟨_ | _ | kind, mid⟩
  case error => exact ⟨rfl, rfl⟩
  case ok.none => exact ⟨rfl, rfl⟩
  have hpayload := h (kind, mid) (by simp only [accepts, hfirst])
  rw [Option.map_eq_none_iff] at hpayload
  have hquiet : ∀ respond : List UInt8 → Served,
      (handleRpc respond ending n mid).node = some n ∧
        (handleRpc respond ending n mid).written = [] := by
    intro respond
    unfold handleRpc
    rcases hsecond : readEnvelopePayload ending mid with ⟨_ | _ | payload, rest⟩
    case error => exact ⟨rfl, rfl⟩
    case ok.none => exact ⟨rfl, rfl⟩
    simp [accepts, hsecond] at hpayload
  cases kind
  · exact hquiet _
  · exact hquiet _

/-- A handler that has run. -/
theorem respond_of_decoded {α : Type} (kind : DispatchKind)
    {decode : List UInt8 → Except String α}
    (handler : RaftNode → α → Option (Option (List UInt8) × RaftNode)) (n : RaftNode)
    {reqBuf : List UInt8} {req : α} (hreq : decode reqBuf = .ok req) :
    (respond kind decode handler n reqBuf).node = (handler n req).map Prod.snd ∧
      (respond kind decode handler n reqBuf).written =
        match (handler n req).map Prod.fst with
        | some (some payload) =>
            if payload.length ≤ maxFrameBytes then envelope (kind, payload) else []
        | _ => [] := by
  rcases hhandled : handler n req with _ | ⟨_ | payload, n'⟩
  · simp [respond, hreq, hhandled]
  · simp [respond, hreq, hhandled]
  by_cases hsize : payload.length ≤ maxFrameBytes
  · have hwrite : writeEnvelope kind payload [] = (.ok (), envelope (kind, payload)) :=
      writeEnvelope_ok (f := (kind, payload)) hsize []
    simp [respond, hreq, hhandled, hwrite, hsize]
  · obtain ⟨e, hwrite, -⟩ := writeEnvelope_refused kind (by omega : _ < payload.length) []
    simp [respond, hreq, hhandled, hwrite, hsize]

end RpcServer

theorem frameReader_nil : frameReader [] = none := rfl

/-- A frame of which enough bytes come through. -/
theorem frameReader_take_iff {f g : Frame} (hsize : g.2.length ≤ maxFrameBytes) (k : Nat) :
    (∃ rest, frameReader ((envelope g).take k) = some (f, rest)) ↔
      f = g ∧ (envelope g).length ≤ k := by
  by_cases hlen : (envelope g).length ≤ k
  · have hread : frameReader (envelope g) = some (g, []) := by
      have h := frameReader_reads hsize []
      rwa [List.append_nil] at h
    rw [List.take_of_length_le hlen, hread]
    constructor
    · rintro ⟨rest, heq⟩
      exact ⟨(Prod.mk.inj (Option.some.inj heq)).1.symm, hlen⟩
    · rintro ⟨rfl, -⟩
      exact ⟨[], rfl⟩
  · have hcut : frameReader ((envelope g).take k) = none :=
      (frameReader_reads hsize).cut_short frameReader_streaming (by omega)
    rw [hcut]
    constructor
    · rintro ⟨rest, heq⟩
      cases heq
    · exact fun h => absurd h.2 hlen

/-- The frame is written, and all of it arrives. -/
def Connection.Delivers (c : Connection) (f : Frame) : Prop :=
  f.2.length ≤ maxFrameBytes ∧ (envelope f).length ≤ c.arriving

/-- The frame is written, and all of it comes back. -/
def Connection.Returns (c : Connection) (f : Frame) : Prop :=
  f.2.length ≤ maxFrameBytes ∧ (envelope f).length ≤ c.returning

namespace RpcClient

variable {c : Connection} {kind : DispatchKind} {payload : List UInt8}

theorem readEnvelope_nil {ending : Option IoError} {frame : Frame} {rest : List UInt8} :
    readEnvelope ending [] ≠ (.ok (some frame), rest) := by
  intro heq
  have hnone : accepts (readEnvelope ending) [] = none := by rw [accepts_readEnvelope]; rfl
  simp [accepts, heq] at hnone

/-- A request that does not get through leaves the node alone. -/
theorem exchange_of_not_delivers (d : Prost) (clock : Clock) (n : RaftNode)
    (h : ¬c.Delivers (kind, payload)) :
    (exchange d clock (.ok c) kind payload n).2 = some n ∧
      ∀ frame, (exchange d clock (.ok c) kind payload n).1 ≠ .ok (some frame) := by
  by_cases hsize : payload.length ≤ maxFrameBytes
  · have hwrite : writeEnvelope kind payload [] = (.ok (), envelope (kind, payload)) :=
      writeEnvelope_ok (f := (kind, payload)) hsize []
    have hcut : frameReader ((envelope (kind, payload)).take c.arriving) = none :=
      (frameReader_reads (f := (kind, payload)) hsize).cut_short frameReader_streaming
        (by by_contra hlen; exact h ⟨hsize, by omega⟩)
    obtain ⟨hnode, hwritten⟩ := RpcServer.dispatchLogic_of_cut d clock n hcut c.requestEnding
    rcases hread : readEnvelope c.replyEnding [] with ⟨e | frame, rest⟩
    · simp [exchange, hwrite, hnode, hwritten, hread]
    · simp only [exchange, hwrite, hnode, hwritten, List.take_nil, hread, true_and]
      rintro f heq
      rw [Except.ok.inj heq] at hread
      exact readEnvelope_nil hread
  · obtain ⟨e, hwrite, -⟩ := writeEnvelope_refused kind (by omega : _ < payload.length) []
    obtain ⟨hnode, -⟩ :=
      RpcServer.dispatchLogic_of_cut d clock n frameReader_nil c.requestEnding
    simp [exchange, hwrite, hnode]

/-- A request that gets through is answered. -/
theorem exchange_of_delivers (d : Prost) (clock : Clock) (n : RaftNode)
    (h : c.Delivers (kind, payload)) :
    (exchange d clock (.ok c) kind payload n).2 =
        (RpcServer.respondFrame d clock n (kind, payload)).node ∧
      ∀ frame, (exchange d clock (.ok c) kind payload n).1 = .ok (some frame) ↔
        ∃ rest, frameReader
          ((RpcServer.respondFrame d clock n (kind, payload)).written.take c.returning) =
            some (frame, rest) := by
  have hwrite : writeEnvelope kind payload [] = (.ok (), envelope (kind, payload)) :=
    writeEnvelope_ok (f := (kind, payload)) h.1 []
  obtain ⟨rest, hframe⟩ := (frameReader_take_iff h.1 c.arriving).mpr ⟨rfl, h.2⟩
  have hserved := RpcServer.dispatchLogic_of_frame d clock n hframe c.requestEnding
  generalize RpcServer.respondFrame d clock n (kind, payload) = served at hserved ⊢
  rw [← (accepts_readEnvelope : accepts (readEnvelope c.replyEnding) = frameReader)]
  rcases hread : readEnvelope c.replyEnding (served.written.take c.returning) with
    ⟨_ | _ | frame, rest'⟩
  · simp [exchange, hwrite, hserved, accepts, hread]
  · simp [exchange, hwrite, hserved, accepts, hread]
  · simp [exchange, hwrite, hserved, accepts, hread]

end RpcClient

/-! ## Calls -/

/-- The conversions give a message back. -/
theorem decodeDomain_encodeDomain {msg : RaftMessage}
    (h : ∀ e ∈ msg.entries, e.command.isReplicated) : decodeDomain (encodeDomain msg) = msg := by
  cases msg with
  | appendEntries args =>
    exact congrArg (fun entries => RaftMessage.appendEntries { args with entries := entries })
      (Pb.LogEntry.map_toDomain_ofDomain h)
  | _ => rfl

/-- A reply carries no entries. -/
theorem RaftNode.answer_entries {clock : Clock} {n n' : RaftNode} {msg r : RaftMessage}
    (h : n.answer clock msg = some (some r, n')) : r.entries = [] := by
  cases msg with
  | installSnapshot args =>
    obtain ⟨p, -, heq⟩ := Option.map_eq_some_iff.mp h
    cases heq
    rfl
  | requestVote args | requestPreVote args | appendEntries args | joinCluster req =>
    cases h
    rfl
  | voteResponse args | appendReply args | installSnapshotReply args | preVoteResponse args
  | joinClusterResponse resp => cases h

namespace RpcClient

variable {d : Prost} {clock : Clock} {n : RaftNode} {msg : RaftMessage}

/-- The frame that is read back is the reply that was written. -/
theorem frameReader_written_iff {kind : DispatchKind} {reply : Option (Option (List UInt8))}
    {k : Nat} {f : Frame} :
    (∃ rest, frameReader ((match reply with
        | some (some payload) =>
            if payload.length ≤ maxFrameBytes then envelope (kind, payload) else []
        | _ => []).take k) = some (f, rest)) ↔
      ∃ payload, reply = some (some payload) ∧ f = (kind, payload) ∧
        payload.length ≤ maxFrameBytes ∧ (envelope (kind, payload)).length ≤ k := by
  have hnil : ¬∃ rest, frameReader (([] : List UInt8).take k) = some (f, rest) := by
    rintro ⟨rest, heq⟩
    rw [List.take_nil, frameReader_nil] at heq
    cases heq
  rcases reply with _ | _ | payload
  · simpa using hnil
  · simpa using hnil
  dsimp only
  by_cases hsize : payload.length ≤ maxFrameBytes
  · rw [if_pos hsize, frameReader_take_iff (g := (kind, payload)) hsize]
    simp [hsize]
  · rw [if_neg hsize]
    simpa [hsize] using hnil

/-- What the server makes of a message. -/
theorem respondFrame_raft (clock : Clock) (n : RaftNode) (hreq : d.ReadsBack msg)
    (hentries : ∀ e ∈ msg.entries, e.command.isReplicated) :
    (RpcServer.respondFrame d clock n (.raft, d.payload msg)).node =
        (n.answer clock msg).map Prod.snd ∧
      ∀ k f, (∃ rest, frameReader
          ((RpcServer.respondFrame d clock n (.raft, d.payload msg)).written.take k) =
            some (f, rest)) ↔
        ∃ r n', n.answer clock msg = some (some r, n') ∧ f = (.raft, d.payload r) ∧
          (d.payload r).length ≤ maxFrameBytes ∧ (envelope (.raft, d.payload r)).length ≤ k := by
  have hreq : d.raftMessage.decode (d.payload msg) = .ok (encodeDomain msg) := hreq
  obtain ⟨hnode, hwritten⟩ := RpcServer.respond_of_decoded .raft
    (fun n req => (n.answer clock (decodeDomain req)).map fun (response, n') =>
      (response.map d.payload, n')) n hreq
  rw [decodeDomain_encodeDomain hentries] at hnode hwritten
  refine ⟨hnode.trans ?_, fun k f => ?_⟩
  · rw [Option.map_map]
    rfl
  show (∃ rest, frameReader ((RpcServer.respond .raft d.raftMessage.decode _ n
    (d.payload msg)).written.take k) = _) ↔ _
  rw [hwritten, frameReader_written_iff, Option.map_map]
  constructor
  · rintro ⟨payload, hpayload, rfl, hback⟩
    obtain ⟨⟨response, n'⟩, hanswer, heq⟩ := Option.map_eq_some_iff.mp hpayload
    obtain ⟨r, rfl, rfl⟩ := Option.map_eq_some_iff.mp heq
    exact ⟨r, n', hanswer, rfl, hback⟩
  · rintro ⟨r, n', hanswer, rfl, hback⟩
    exact ⟨d.payload r, by rw [hanswer]; rfl, rfl, hback⟩

theorem call_of_not_delivers {c : Connection} (h : ¬c.Delivers (.raft, d.payload msg)) :
    (call d clock (.ok c) msg n).2 = some n ∧ ∀ r, (call d clock (.ok c) msg n).1 ≠ .ok r := by
  obtain ⟨hnode, hframe⟩ := exchange_of_not_delivers d clock n h
  unfold call
  rcases hx : exchange d clock (.ok c) .raft (d.payload msg) n with ⟨_ | _ | frame, n'⟩
  all_goals rw [hx] at hnode hframe
  · exact ⟨hnode, fun r => by simp⟩
  · exact ⟨hnode, fun r => by simp [replyMessage]⟩
  · exact absurd rfl (hframe frame)

/-- The reply to a message that was read back. -/
theorem replyMessage_payload (hback : d.ReadsBack msg) (hentries : msg.entries = [])
    (kind : DispatchKind) : replyMessage d (some (kind, d.payload msg)) = .ok msg := by
  have hback : d.raftMessage.decode (d.payload msg) = .ok (encodeDomain msg) := hback
  have hdecoded : decodeDomain (encodeDomain msg) = msg :=
    decodeDomain_encodeDomain (by simp [hentries])
  show (match d.raftMessage.decode (d.payload msg) with
    | .error e => Except.error (RpcError.decode e)
    | .ok respPb => Except.ok (decodeDomain respPb)) = _
  rw [hback]
  exact congrArg Except.ok hdecoded

/-- A request is handled once or not at all, by the handler of the message that
was sent.  What `call` returns is the reply of that handler. -/
theorem call_spec (hreq : d.ReadsBack msg) (hentries : ∀ e ∈ msg.entries, e.command.isReplicated)
    (hreply : ∀ r n', n.answer clock msg = some (some r, n') → d.ReadsBack r) (c : Connection) :
    let out := call d clock (.ok c) msg n
    (¬c.Delivers (.raft, d.payload msg) → out.2 = some n ∧ ∀ r, out.1 ≠ .ok r) ∧
    (c.Delivers (.raft, d.payload msg) →
      out.2 = (n.answer clock msg).map Prod.snd ∧
      ∀ r, out.1 = .ok r ↔
        ∃ n', n.answer clock msg = some (some r, n') ∧ c.Returns (.raft, d.payload r)) := by
  refine ⟨call_of_not_delivers, fun h => ?_⟩
  obtain ⟨hnode, hframe⟩ := exchange_of_delivers d clock n h
  obtain ⟨hanswered, hwritten⟩ := respondFrame_raft clock n hreq hentries
  rw [hanswered] at hnode
  unfold call
  rcases hx : exchange d clock (.ok c) .raft (d.payload msg) n with ⟨e | _ | ⟨kind, respBuf⟩, n'⟩
  all_goals rw [hx] at hnode hframe
  · refine ⟨hnode, fun r => ⟨fun heq => (by cases heq), ?_⟩⟩
    rintro ⟨n₁, hr, hreturns⟩
    have hok := (hframe _).mpr ((hwritten _ _).mpr ⟨r, n₁, hr, rfl, hreturns⟩)
    cases hok
  · refine ⟨hnode, fun r => ⟨fun heq => (by cases heq), ?_⟩⟩
    rintro ⟨n₁, hr, hreturns⟩
    have hok := (hframe _).mpr ((hwritten _ _).mpr ⟨r, n₁, hr, rfl, hreturns⟩)
    cases hok
  · obtain ⟨r₁, n₁, hr₁, heq, hreturns⟩ := (hwritten _ _).mp ((hframe (kind, respBuf)).mp rfl)
    obtain ⟨rfl, rfl⟩ := Prod.mk.inj heq
    dsimp only
    rw [replyMessage_payload (hreply r₁ n₁ hr₁) (RaftNode.answer_entries hr₁)]
    refine ⟨hnode, fun r => ?_⟩
    constructor
    · intro heq
      obtain rfl := Except.ok.inj heq
      exact ⟨n₁, hr₁, hreturns⟩
    · rintro ⟨n₂, hr₂, -⟩
      rw [hr₁] at hr₂
      cases hr₂
      rfl

def someVote : RequestVoteArgs :=
  { term := 1, candidateId := "a", lastLogIndex := 0, lastLogTerm := 0 }

def grantedVote : VoteResponseArgs := { term := 1, voteGranted := true }

/-- `a` asks a node that has not voted.  One connection breaks in the middle of
the request, the other does not break. -/
theorem call_spec_vote :
    let d := Prost.proto3 [.requestVote someVote, .voteResponse grantedVote] [] []
    let voter := RaftNode.freshNode "b" ["a", "c"]
    (call d someClock (.ok ⟨7, none, 100, none⟩) (.requestVote someVote) voter).2 = some voter ∧
      (call d someClock (.ok ⟨100, none, 100, none⟩) (.requestVote someVote) voter).1 =
        .ok (.voteResponse grantedVote) := by
  intro d voter
  have hgranted : (RaftNode.handleRequestVote someClock someVote voter).1 = grantedVote := by
    decide +kernel
  have hanswer : voter.answer someClock (.requestVote someVote) =
      some (some (.voteResponse grantedVote),
        (RaftNode.handleRequestVote someClock someVote voter).2) := by
    rw [← hgranted]
    rfl
  have hne : d.payload (.requestVote someVote) ≠
      d.payload (.voteResponse grantedVote) := by
    decide +kernel
  have hreq : d.ReadsBack (.requestVote someVote) := by
    refine Prost.proto3_readsBack List.mem_cons_self fun m hm heq => ?_
    rcases List.mem_pair.mp hm with rfl | rfl
    · rfl
    · exact absurd heq.symm hne
  have hreply : ∀ r n', voter.answer someClock (.requestVote someVote) = some (some r, n') →
      d.ReadsBack r := by
    intro r n' hr
    rw [hanswer] at hr
    cases hr
    refine Prost.proto3_readsBack (List.mem_cons_of_mem _ List.mem_cons_self) fun m hm heq => ?_
    rcases List.mem_pair.mp hm with rfl | rfl
    · exact absurd heq hne
    · rfl
  have hspec := call_spec hreq (by simp [RaftMessage.entries]) hreply
  have hlength : (envelope (.raft, d.payload (.requestVote someVote))).length = 12 ∧
      (envelope (.raft, d.payload (.voteResponse grantedVote))).length = 11 := by
    decide +kernel
  constructor
  · refine ((hspec ⟨7, none, 100, none⟩).1 fun h => ?_).1
    have hcut := h.2
    rw [hlength.1] at hcut
    simp at hcut
  · refine (((hspec ⟨100, none, 100, none⟩).2 ?_).2 _).mpr ⟨_, hanswer, ?_⟩
    · exact ⟨by decide +kernel, by rw [hlength.1]; decide⟩
    · exact ⟨by decide +kernel, by rw [hlength.2]; decide⟩

theorem answer_installSnapshot_iff {clock : Clock} {n n' : RaftNode} {args : InstallSnapshotArgs}
    {r : RaftMessage} : n.answer clock (.installSnapshot args) = some (some r, n') ↔
      ∃ reply, RaftNode.handleInstallSnapshot clock args n = some (reply, n') ∧
        r = .installSnapshotReply reply := by
  show (RaftNode.handleInstallSnapshot clock args n).map _ = _ ↔ _
  rw [Option.map_eq_some_iff]
  constructor
  · rintro ⟨⟨reply, n₁⟩, hhandled, heq⟩
    cases heq
    exact ⟨reply, hhandled, rfl⟩
  · rintro ⟨reply, hhandled, rfl⟩
    exact ⟨(reply, n'), hhandled, rfl⟩

/-- What the caller gets for a snapshot is the reply to it. -/
theorem sendInstallSnapshotRpc_ok_iff {args : InstallSnapshotArgs}
    (hreq : d.ReadsBack (.installSnapshot args))
    (hreply : ∀ r n', n.answer clock (.installSnapshot args) = some (some r, n') → d.ReadsBack r)
    (c : Connection) (reply : InstallSnapshotReplyArgs) :
    (sendInstallSnapshotRpc d clock (.ok c) args n).1 = .ok reply ↔
      c.Delivers (.raft, d.payload (.installSnapshot args)) ∧
        (RaftNode.handleInstallSnapshot clock args n).map Prod.fst = some reply ∧
        c.Returns (.raft, d.payload (.installSnapshotReply reply)) := by
  have hspec := call_spec hreq (by simp [RaftMessage.entries]) hreply c
  have hout : ∀ reply, (sendInstallSnapshotRpc d clock (.ok c) args n).1 = .ok reply ↔
      (call d clock (.ok c) (.installSnapshot args) n).1 = .ok (.installSnapshotReply reply) := by
    intro reply
    unfold sendInstallSnapshotRpc
    rcases call d clock (.ok c) (.installSnapshot args) n with ⟨e | r, n'⟩
    · simp
    · cases r <;> simp
  rw [hout]
  by_cases hdelivers : c.Delivers (.raft, d.payload (.installSnapshot args))
  · rw [(hspec.2 hdelivers).2]
    constructor
    · rintro ⟨n', hr, hreturns⟩
      obtain ⟨reply', hhandled, heq⟩ := answer_installSnapshot_iff.mp hr
      cases heq
      exact ⟨hdelivers, by rw [hhandled]; rfl, hreturns⟩
    · rintro ⟨-, hhandled, hreturns⟩
      obtain ⟨⟨reply', n'⟩, hsome, rfl⟩ := Option.map_eq_some_iff.mp hhandled
      exact ⟨n', answer_installSnapshot_iff.mpr ⟨reply', hsome, rfl⟩, hreturns⟩
  · constructor
    · exact fun heq => absurd heq ((hspec.1 hdelivers).2 _)
    · exact fun h => absurd h.1 hdelivers

def someSnapshot : InstallSnapshotArgs :=
  { term := 1, leaderId := "a", lastIncludedIndex := 1, lastIncludedTerm := 1,
    snapshot := { lastIncludedIndex := 1, lastIncludedTerm := 1, data := {} } }

theorem sendInstallSnapshotRpc_ok_iff_whole :
    let d := Prost.proto3 [.installSnapshot someSnapshot, .installSnapshotReply { term := 1 }] [] []
    (sendInstallSnapshotRpc d someClock (.ok ⟨100, none, 100, none⟩) someSnapshot
      (RaftNode.freshNode "b" ["a", "c"])).1 = .ok { term := 1 } := by
  intro d
  have hhandled : (RaftNode.handleInstallSnapshot someClock someSnapshot
      (RaftNode.freshNode "b" ["a", "c"])).map Prod.fst = some { term := 1 } := by
    decide +kernel
  have hne : d.payload (.installSnapshot someSnapshot) ≠
      d.payload (.installSnapshotReply { term := 1 }) := by
    decide +kernel
  have hreq : d.ReadsBack (.installSnapshot someSnapshot) := by
    refine Prost.proto3_readsBack List.mem_cons_self fun m hm heq => ?_
    rcases List.mem_pair.mp hm with rfl | rfl
    · rfl
    · exact absurd heq.symm hne
  have hreply : ∀ r n', (RaftNode.freshNode "b" ["a", "c"]).answer someClock
      (.installSnapshot someSnapshot) = some (some r, n') → d.ReadsBack r := by
    intro r n' hr
    obtain ⟨reply, hsome, rfl⟩ := answer_installSnapshot_iff.mp hr
    rw [hsome] at hhandled
    obtain rfl : reply = { term := 1 } := Option.some.inj hhandled
    refine Prost.proto3_readsBack (List.mem_cons_of_mem _ List.mem_cons_self) fun m hm heq => ?_
    rcases List.mem_pair.mp hm with rfl | rfl
    · exact absurd heq hne
    · rfl
  refine (sendInstallSnapshotRpc_ok_iff hreq hreply ⟨100, none, 100, none⟩ _).mpr
    ⟨?_, hhandled, ?_⟩
  · exact ⟨by decide +kernel, by decide +kernel⟩
  · exact ⟨by decide +kernel, by decide +kernel⟩

/-- A request for a vote is handled once or not at all.  A vote that comes back
is the one that was cast. -/
theorem sendTxVoteRpc_spec {req : VoteRequest} (hreq : d.voteRequest.ReadsBack req)
    (hreply : d.voteResponse.ReadsBack (RaftNode.handleTxVoteRequest clock req n).1)
    (c : Connection) :
    let out := sendTxVoteRpc d clock (.ok c) req n
    let cast := RaftNode.handleTxVoteRequest clock req n
    (¬c.Delivers (.vote, d.voteRequest.encodeToVec req) →
      out.2 = some n ∧ ∀ resp, out.1 ≠ .ok resp) ∧
    (c.Delivers (.vote, d.voteRequest.encodeToVec req) →
      out.2 = some cast.2 ∧
      ∀ resp, out.1 = .ok resp ↔
        resp = cast.1 ∧ c.Returns (.vote, d.voteResponse.encodeToVec cast.1)) := by
  have hreply : d.voteResponse.decode (d.voteResponse.encodeToVec
      (RaftNode.handleTxVoteRequest clock req n).1) =
        .ok (RaftNode.handleTxVoteRequest clock req n).1 := hreply
  dsimp only
  constructor
  · intro h
    obtain ⟨hnode, hframe⟩ := exchange_of_not_delivers d clock n h
    unfold sendTxVoteRpc
    rcases hx : exchange d clock (.ok c) .vote (d.voteRequest.encodeToVec req) n with
      ⟨e | _ | frame, n'⟩
    all_goals rw [hx] at hnode hframe
    · exact ⟨hnode, fun r => by simp⟩
    · exact ⟨hnode, fun r => by simp⟩
    · exact absurd rfl (hframe frame)
  · intro h
    obtain ⟨hnode, hframe⟩ := exchange_of_delivers d clock n h
    obtain ⟨hanswered, hwritten⟩ := RpcServer.respond_of_decoded .vote
      (fun n req => some
        (some (d.voteResponse.encodeToVec (RaftNode.handleTxVoteRequest clock req n).1),
          (RaftNode.handleTxVoteRequest clock req n).2)) n hreq
    have hread : ∀ f, (∃ rest, frameReader ((RpcServer.respondFrame d clock n
        (.vote, d.voteRequest.encodeToVec req)).written.take c.returning) = some (f, rest)) ↔
        f = (.vote, d.voteResponse.encodeToVec (RaftNode.handleTxVoteRequest clock req n).1) ∧
          c.Returns
            (.vote, d.voteResponse.encodeToVec (RaftNode.handleTxVoteRequest clock req n).1) := by
      intro f
      show (∃ rest, frameReader ((RpcServer.respond .vote d.voteRequest.decode _ n
        (d.voteRequest.encodeToVec req)).written.take c.returning) = _) ↔ _
      rw [hwritten, frameReader_written_iff]
      simp [Connection.Returns]
    rw [show (RpcServer.respondFrame d clock n (.vote, d.voteRequest.encodeToVec req)).node = _
      from hanswered] at hnode
    unfold sendTxVoteRpc
    rcases hx : exchange d clock (.ok c) .vote (d.voteRequest.encodeToVec req) n with
      ⟨e | _ | ⟨kind, respBuf⟩, n'⟩
    all_goals
      rw [hx] at hnode hframe
      dsimp only at hnode hframe
    · refine ⟨hnode, fun resp => ⟨fun heq => (by cases heq), fun hr => ?_⟩⟩
      have hok := (hframe _).mpr ((hread _).mpr ⟨rfl, hr.2⟩)
      cases hok
    · refine ⟨hnode, fun resp => ⟨fun heq => (by cases heq), fun hr => ?_⟩⟩
      have hok := (hframe _).mpr ((hread _).mpr ⟨rfl, hr.2⟩)
      cases hok
    · obtain ⟨heq, hreturns⟩ := (hread _).mp ((hframe (kind, respBuf)).mp rfl)
      obtain ⟨rfl, rfl⟩ := Prod.mk.inj heq
      simp only [ne_eq, not_true_eq_false, if_false, hreply]
      refine ⟨hnode, fun resp => ⟨fun heq => ⟨(Except.ok.inj heq).symm, hreturns⟩, ?_⟩⟩
      rintro ⟨rfl, -⟩
      rfl

/-- `a` asks a node that has the `BeginTx` in its log.  One connection breaks in
the middle of the request, the other does not break. -/
theorem sendTxVoteRpc_spec_granted :
    let req : VoteRequest := { term := 1, txId := "t", lastLogIndex := 1, lastLogTerm := 1 }
    let granted : VoteResponse := { term := 1, voteGranted := true, reason := "" }
    let d := Prost.proto3 [] [req] [granted]
    let voter := { RaftNode.freshNode "b" ["a", "c"] with
      currentTerm := 1, log := [{ term := 1, index := 1, command := .beginTx "t" [] }] }
    (sendTxVoteRpc d someClock (.ok ⟨7, none, 100, none⟩) req voter).2 = some voter ∧
      (sendTxVoteRpc d someClock (.ok ⟨100, none, 100, none⟩) req voter).1 = .ok granted := by
  intro req granted d voter
  have hgranted : (RaftNode.handleTxVoteRequest someClock req voter).1 = granted := by
    decide +kernel
  have hreq : d.voteRequest.ReadsBack req :=
    ProstMessage.ofList_readsBack List.mem_cons_self
      fun r hr _ => List.mem_singleton.mp hr
  have hreply : d.voteResponse.ReadsBack (RaftNode.handleTxVoteRequest someClock req voter).1 := by
    rw [hgranted]
    exact ProstMessage.ofList_readsBack List.mem_cons_self
      fun r hr _ => List.mem_singleton.mp hr
  have hspec := sendTxVoteRpc_spec hreq hreply
  dsimp only at hspec
  rw [hgranted] at hspec
  constructor
  · refine ((hspec ⟨7, none, 100, none⟩).1 fun h => ?_).1
    exact absurd h.2 (by decide +kernel)
  · refine (((hspec ⟨100, none, 100, none⟩).2 ?_).2 _).mpr ⟨rfl, ?_⟩
    · exact ⟨by decide +kernel, by decide +kernel⟩
    · exact ⟨by decide +kernel, by decide +kernel⟩

end RpcClient

end OxideKv
