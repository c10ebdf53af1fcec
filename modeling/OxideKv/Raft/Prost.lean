import OxideKv.Lib.Proto3
import OxideKv.Raft.Wire

/-!
# What `prost` generates

The build turns `raft.proto` and `coordination.proto` into records with
`encode_to_vec` and `decode`.  This code is not in the repository, so `Prost`
takes both functions as they come, for the three messages that travel on the
port.  What a result needs of them it says: `ReadsBack`, that a message is
decoded to itself, and `MessageSizes`, that in the size of a message every entry
counts for itself.

`proto3` is the wire format that `prost` writes, with decoders that know the
messages of a list.
-/

namespace OxideKv

open Proto3

/-- `encode_to_vec` and `decode` of a record. -/
structure ProstMessage (α : Type) where
  encodeToVec : α → List UInt8
  decode : List UInt8 → Except String α

/-- The messages on the port. -/
structure Prost where
  raftMessage : ProstMessage Pb.RaftMessage
  voteRequest : ProstMessage VoteRequest
  voteResponse : ProstMessage VoteResponse

/-- What has been encoded is decoded to the same record. -/
def ProstMessage.ReadsBack {α : Type} (c : ProstMessage α) (a : α) : Prop :=
  c.decode (c.encodeToVec a) = .ok a

namespace Prost

variable (d : Prost)

/-- The payload of a frame that carries the message. -/
def payload (m : RaftMessage) : List UInt8 := d.raftMessage.encodeToVec (encodeDomain m)

def ReadsBack (m : RaftMessage) : Prop := d.raftMessage.ReadsBack (encodeDomain m)

/-- The size of a message with entries.  Such a message is a field of its own: a
key of one byte, the number of its bytes, and these.  The bytes of the entries
add up, and the rest does not depend on them. -/
structure MessageSizes where
  headerSize : AppendEntriesArgs → Nat
  entrySize : LogEntry → Nat
  headerSize_entries : ∀ (args : AppendEntriesArgs) (entries : List LogEntry),
    headerSize { args with entries := entries } = headerSize args
  length_payload : ∀ args : AppendEntriesArgs,
    let size := headerSize args + (args.entries.map entrySize).sum
    (d.payload (.appendEntries args)).length = 1 + (varint size).length + size

end Prost

/-! ## The wire format -/

namespace Pb

def ServerId.encodeToVec (m : ServerId) : List UInt8 :=
  stringField 1 m.nodeId ++ stringField 2 m.addr

def ConfigurationEntry.encodeToVec (m : ConfigurationEntry) : List UInt8 :=
  enumField 1 m.kind ++ m.oldServers.flatMap (fun s => lenField 2 s.encodeToVec) ++
    m.newServers.flatMap (fun s => lenField 3 s.encodeToVec)

def Set.encodeToVec (m : Set) : List UInt8 := stringField 1 m.key ++ stringField 2 m.value

def Get.encodeToVec (m : Get) : List UInt8 := stringField 1 m.key

def Delete.encodeToVec (m : Delete) : List UInt8 := stringField 1 m.key

def TxOp.encodeToVec (m : TxOp) : List UInt8 :=
  match m.body with
  | some (.put s) => lenField 1 s.encodeToVec
  | some (.delete d) => lenField 2 d.encodeToVec
  | none => []

def BeginTx.encodeToVec (m : BeginTx) : List UInt8 :=
  stringField 1 m.txId ++ m.ops.flatMap fun op => lenField 2 op.encodeToVec

def DecideTx.encodeToVec (m : DecideTx) : List UInt8 :=
  stringField 1 m.txId ++ boolField 2 m.commit

def Command.encodeToVec (m : Command) : List UInt8 :=
  match m.body with
  | some (.set s) => lenField 1 s.encodeToVec
  | some (.get g) => lenField 2 g.encodeToVec
  | some (.delete d) => lenField 3 d.encodeToVec
  | some (.compact _) => lenField 4 []
  | some (.beginTx b) => lenField 5 b.encodeToVec
  | some (.decideTx d) => lenField 7 d.encodeToVec
  | some (.addNode s) => lenField 8 s.encodeToVec
  | some (.removeNode nodeId) => lenField 9 (ByteReader.utf8 nodeId)
  | some (.installConfiguration c) => lenField 10 c.encodeToVec
  | some (.abortTx txId) => lenField 11 (ByteReader.utf8 txId)
  | none => []

def LogEntry.encodeToVec (m : LogEntry) : List UInt8 :=
  uint64Field 1 m.term ++ uint64Field 2 m.index ++
    (m.command.map fun c => lenField 3 c.encodeToVec).getD []

def RequestVoteArgs.encodeToVec (m : RequestVoteArgs) : List UInt8 :=
  uint64Field 1 m.term ++ stringField 2 m.candidateId ++ uint64Field 3 m.lastLogIndex ++
    uint64Field 4 m.lastLogTerm

def VoteResponseArgs.encodeToVec (m : VoteResponseArgs) : List UInt8 :=
  uint64Field 1 m.term ++ boolField 2 m.voteGranted

def AppendEntriesArgs.encodeToVec (m : AppendEntriesArgs) : List UInt8 :=
  uint64Field 1 m.term ++ stringField 2 m.leaderId ++ uint64Field 3 m.prevLogIndex ++
    uint64Field 4 m.prevLogTerm ++ m.entries.flatMap (fun e => lenField 5 e.encodeToVec) ++
    uint64Field 6 m.leaderCommit

def AppendReplyArgs.encodeToVec (m : AppendReplyArgs) : List UInt8 :=
  uint64Field 1 m.term ++ boolField 2 m.success

/-- A `HashMap` is written in no particular order; here it is that of the keys. -/
def Snapshot.encodeToVec (m : Snapshot) : List UInt8 :=
  uint64Field 1 m.lastIncludedIndex ++ uint64Field 2 m.lastIncludedTerm ++
    mapField 3 m.data.toList

def InstallSnapshotArgs.encodeToVec (m : InstallSnapshotArgs) : List UInt8 :=
  uint64Field 1 m.term ++ stringField 2 m.leaderId ++ uint64Field 3 m.lastIncludedIndex ++
    uint64Field 4 m.lastIncludedTerm ++
    (m.snapshot.map fun s => lenField 5 s.encodeToVec).getD []

def InstallSnapshotReplyArgs.encodeToVec (m : InstallSnapshotReplyArgs) : List UInt8 :=
  uint64Field 1 m.term

def JoinClusterRequest.encodeToVec (m : JoinClusterRequest) : List UInt8 :=
  stringField 1 m.candidateAddr

def JoinClusterResponse.encodeToVec (m : JoinClusterResponse) : List UInt8 :=
  boolField 1 m.accepted ++ uint64Field 2 m.term ++ stringField 3 m.leaderAddr ++
    m.peerAddrs.flatMap (fun addr => lenField 4 (ByteReader.utf8 addr)) ++ stringField 5 m.reason

def RaftMessage.encodeToVec (m : RaftMessage) : List UInt8 :=
  match m.body with
  | some (.requestVote a) => lenField 1 a.encodeToVec
  | some (.voteResponse a) => lenField 2 a.encodeToVec
  | some (.appendEntries a) => lenField 3 a.encodeToVec
  | some (.appendReply a) => lenField 4 a.encodeToVec
  | some (.installSnapshot a) => lenField 5 a.encodeToVec
  | some (.installSnapshotReply a) => lenField 6 a.encodeToVec
  | some (.requestPreVote a) => lenField 7 a.encodeToVec
  | some (.preVoteResponse a) => lenField 8 a.encodeToVec
  | some (.joinCluster req) => lenField 9 req.encodeToVec
  | some (.joinClusterResponse resp) => lenField 10 resp.encodeToVec
  | none => []

end Pb

/-- `encode_to_vec` of the records of `coordination.proto`. -/
def VoteRequest.encodeToVec (m : VoteRequest) : List UInt8 :=
  uint64Field 1 m.term ++ stringField 2 m.txId ++ uint64Field 3 m.lastLogIndex ++
    uint64Field 4 m.lastLogTerm

def VoteResponse.encodeToVec (m : VoteResponse) : List UInt8 :=
  uint64Field 1 m.term ++ boolField 2 m.voteGranted ++ stringField 3 m.reason

/-! ## An instance -/

/-- A decoder that knows the records of a list. -/
def ProstMessage.ofList {α : Type} (encodeToVec : α → List UInt8) (known : List α) :
    ProstMessage α where
  encodeToVec := encodeToVec
  decode := fun bytes =>
    match known.find? fun m => encodeToVec m = bytes with
    | some m => .ok m
    | none => .error "failed to decode Protobuf message"

theorem ProstMessage.ofList_readsBack {α : Type} {encodeToVec : α → List UInt8} {known : List α}
    {a : α} (ha : a ∈ known) (hinj : ∀ b ∈ known, encodeToVec b = encodeToVec a → b = a) :
    (ProstMessage.ofList encodeToVec known).ReadsBack a := by
  unfold ReadsBack ofList
  cases hfind : known.find? fun m => encodeToVec m = encodeToVec a with
  | none =>
    have hno := List.find?_eq_none.mp hfind a ha
    simp at hno
  | some b =>
    have heq : encodeToVec b = encodeToVec a := by
      simpa using List.find?_some hfind
    simp only [hfind, hinj b (List.mem_of_find?_eq_some hfind) heq]

def Prost.proto3 (msgs : List RaftMessage) (requests : List VoteRequest)
    (responses : List VoteResponse) : Prost where
  raftMessage := .ofList Pb.RaftMessage.encodeToVec (msgs.map encodeDomain)
  voteRequest := .ofList VoteRequest.encodeToVec requests
  voteResponse := .ofList VoteResponse.encodeToVec responses

theorem Prost.proto3_readsBack {msgs : List RaftMessage} {requests : List VoteRequest}
    {responses : List VoteResponse} {m : RaftMessage} (hm : m ∈ msgs)
    (hinj : ∀ m' ∈ msgs, (proto3 msgs requests responses).payload m' =
      (proto3 msgs requests responses).payload m → m' = m) :
    (proto3 msgs requests responses).ReadsBack m := by
  refine ProstMessage.ofList_readsBack (List.mem_map_of_mem hm) fun b hb heq => ?_
  obtain ⟨m', hm', rfl⟩ := List.mem_map.mp hb
  rw [hinj m' hm' heq]

/-- What the entry adds to a message. -/
def LogEntry.wireSize (e : LogEntry) : Nat :=
  (lenField 5 (Pb.LogEntry.ofDomain e).encodeToVec).length

/-- The message without its entries. -/
def AppendEntriesArgs.headerSize (args : AppendEntriesArgs) : Nat :=
  (uint64Field 1 args.term).length + (stringField 2 args.leaderId).length +
    (uint64Field 3 args.prevLogIndex).length + (uint64Field 4 args.prevLogTerm).length +
    (uint64Field 6 args.leaderCommit).length

theorem length_encode_entries (entries : List LogEntry) :
    ((entries.map Pb.LogEntry.ofDomain).flatMap fun e => lenField 5 e.encodeToVec).length =
      (entries.map LogEntry.wireSize).sum := by
  induction entries with
  | nil => rfl
  | cons e entries ih =>
    rw [List.map_cons, List.flatMap_cons, List.length_append, ih, List.map_cons, List.sum_cons]
    rfl

theorem length_encode_appendEntries (args : AppendEntriesArgs) :
    (Pb.AppendEntriesArgs.ofDomain args).encodeToVec.length =
      args.headerSize + (args.entries.map LogEntry.wireSize).sum := by
  rw [← length_encode_entries]
  simp only [Pb.AppendEntriesArgs.encodeToVec, Pb.AppendEntriesArgs.ofDomain, List.length_append,
    AppendEntriesArgs.headerSize]
  omega

/-- The sizes in the wire format. -/
def Prost.proto3Sizes (msgs : List RaftMessage) (requests : List VoteRequest)
    (responses : List VoteResponse) : (proto3 msgs requests responses).MessageSizes where
  headerSize := AppendEntriesArgs.headerSize
  entrySize := LogEntry.wireSize
  headerSize_entries := fun _ _ => rfl
  length_payload := by
    intro args size
    show (lenField 3 (Pb.AppendEntriesArgs.ofDomain args).encodeToVec).length = _
    rw [length_lenField (by omega), length_encode_appendEntries]

end OxideKv
