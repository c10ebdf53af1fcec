import Mathlib.Logic.Function.Basic
import OxideKv.Raft.Handlers

/-!
# Messages on the wire

`proto.rs`: the conversions between the messages of `rpc.rs` and the records
that `prost` makes of `raft.proto`.  A record has one field for each field of
the schema, an `Option` for a nested message or a `oneof`, and an `i32` for an
enumeration, so it can hold more than a conversion produces.  The way back
therefore has defaults.

`usize` and `u64` have the same values, so `as u64` and `as usize` on an index
do nothing.

The leader replaces the commands `AddNode`, `RemoveNode` and `AbortTx` before
they reach its log.  They have a place in the schema, but the way back makes
`Compact` of them.  Everything else comes back as it was
(`decode_encode_domain`).
-/

namespace OxideKv

structure JoinClusterRequest where
  candidateAddr : String
deriving Repr, DecidableEq

structure JoinClusterResponse where
  accepted : Bool
  term : Nat
  leaderAddr : String
  peerAddrs : List String
  reason : String
deriving Repr, DecidableEq

inductive RaftMessage where
  | requestVote (args : RequestVoteArgs)
  | voteResponse (args : VoteResponseArgs)
  | appendEntries (args : AppendEntriesArgs)
  | appendReply (args : AppendReplyArgs)
  | installSnapshot (args : InstallSnapshotArgs)
  | installSnapshotReply (args : InstallSnapshotReplyArgs)
  | requestPreVote (args : RequestVoteArgs)
  | preVoteResponse (args : VoteResponseArgs)
  | joinCluster (req : JoinClusterRequest)
  | joinClusterResponse (resp : JoinClusterResponse)

/-- The log entries that the message carries. -/
def RaftMessage.entries : RaftMessage → List LogEntry
  | .appendEntries args => args.entries
  | _ => []

/-- The leader puts the command into its log as it is. -/
def Command.isReplicated : Command → Bool
  | .addNode _ | .removeNode _ | .abortTx _ => false
  | _ => true

namespace Pb

/-! ## The records of the schema -/

structure ServerId where
  nodeId : String
  addr : String

inductive Kind where
  | unspecified
  | simple
  | joint

/-- `kind as i32`. -/
def Kind.toInt32 : Kind → Int32
  | .unspecified => 0
  | .simple => 1
  | .joint => 2

structure ConfigurationEntry where
  kind : Int32
  oldServers : List ServerId
  newServers : List ServerId

/-- The getter `kind()`.  A number without a variant is read as the default. -/
def ConfigurationEntry.getKind (c : ConfigurationEntry) : Kind :=
  if c.kind = 1 then .simple else if c.kind = 2 then .joint else .unspecified

structure Set where
  key : String
  value : String

structure Get where
  key : String

structure Delete where
  key : String

structure Empty where

inductive TxOpBody where
  | put (s : Set)
  | delete (d : Delete)

structure TxOp where
  body : Option TxOpBody

structure BeginTx where
  txId : String
  ops : List TxOp

structure DecideTx where
  txId : String
  commit : Bool

inductive CommandBody where
  | set (s : Set)
  | get (g : Get)
  | delete (d : Delete)
  | compact (e : Empty)
  | beginTx (b : BeginTx)
  | decideTx (d : DecideTx)
  | addNode (s : ServerId)
  | removeNode (nodeId : String)
  | installConfiguration (c : ConfigurationEntry)
  | abortTx (txId : String)

structure Command where
  body : Option CommandBody

structure LogEntry where
  term : Nat
  index : Nat
  command : Option Command

structure RequestVoteArgs where
  term : Nat
  candidateId : String
  lastLogIndex : Nat
  lastLogTerm : Nat

structure VoteResponseArgs where
  term : Nat
  voteGranted : Bool

structure AppendEntriesArgs where
  term : Nat
  leaderId : String
  prevLogIndex : Nat
  prevLogTerm : Nat
  entries : List LogEntry
  leaderCommit : Nat

structure AppendReplyArgs where
  term : Nat
  success : Bool

structure Snapshot where
  lastIncludedIndex : Nat
  lastIncludedTerm : Nat
  data : Std.TreeMap String String

structure InstallSnapshotArgs where
  term : Nat
  leaderId : String
  lastIncludedIndex : Nat
  lastIncludedTerm : Nat
  snapshot : Option Snapshot

structure InstallSnapshotReplyArgs where
  term : Nat

structure JoinClusterRequest where
  candidateAddr : String

structure JoinClusterResponse where
  accepted : Bool
  term : Nat
  leaderAddr : String
  peerAddrs : List String
  reason : String

inductive RaftMessageBody where
  | requestVote (a : RequestVoteArgs)
  | voteResponse (a : VoteResponseArgs)
  | appendEntries (a : AppendEntriesArgs)
  | appendReply (a : AppendReplyArgs)
  | installSnapshot (a : InstallSnapshotArgs)
  | installSnapshotReply (a : InstallSnapshotReplyArgs)
  | requestPreVote (a : RequestVoteArgs)
  | preVoteResponse (a : VoteResponseArgs)
  | joinCluster (req : JoinClusterRequest)
  | joinClusterResponse (resp : JoinClusterResponse)

structure RaftMessage where
  body : Option RaftMessageBody

/-! ## To the wire -/

def ServerId.ofDomain (s : OxideKv.ServerId) : ServerId :=
  { nodeId := s.nodeId, addr := s.addr }

def ConfigurationEntry.ofDomain : Configuration → ConfigurationEntry
  | .simple servers =>
      { kind := Kind.simple.toInt32, oldServers := [], newServers := servers.map ServerId.ofDomain }
  | .joint old new =>
      { kind := Kind.joint.toInt32
        oldServers := old.map ServerId.ofDomain
        newServers := new.map ServerId.ofDomain }

def TxOp.ofDomain : OxideKv.TxOp → TxOp
  | .put key value => { body := some (.put { key := key, value := value }) }
  | .delete key => { body := some (.delete { key := key }) }

def CommandBody.ofDomain : OxideKv.Command → CommandBody
  | .set key value => .set { key := key, value := value }
  | .get key => .get { key := key }
  | .delete key => .delete { key := key }
  | .compact => .compact {}
  | .beginTx txId ops => .beginTx { txId := txId, ops := ops.map TxOp.ofDomain }
  | .decideTx txId decision => .decideTx { txId := txId, commit := decision = .commit }
  | .addNode server => .addNode (.ofDomain server)
  | .removeNode nodeId => .removeNode nodeId
  | .installConfiguration config => .installConfiguration (.ofDomain config)
  | .abortTx txId => .abortTx txId

def Command.ofDomain (c : OxideKv.Command) : Command := { body := some (.ofDomain c) }

def LogEntry.ofDomain (e : OxideKv.LogEntry) : LogEntry :=
  { term := e.term, index := e.index, command := some (.ofDomain e.command) }

def RequestVoteArgs.ofDomain (a : OxideKv.RequestVoteArgs) : RequestVoteArgs :=
  { term := a.term
    candidateId := a.candidateId
    lastLogIndex := a.lastLogIndex
    lastLogTerm := a.lastLogTerm }

def VoteResponseArgs.ofDomain (a : OxideKv.VoteResponseArgs) : VoteResponseArgs :=
  { term := a.term, voteGranted := a.voteGranted }

def AppendEntriesArgs.ofDomain (a : OxideKv.AppendEntriesArgs) : AppendEntriesArgs :=
  { term := a.term
    leaderId := a.leaderId
    prevLogIndex := a.prevLogIndex
    prevLogTerm := a.prevLogTerm
    entries := a.entries.map LogEntry.ofDomain
    leaderCommit := a.leaderCommit }

def AppendReplyArgs.ofDomain (a : OxideKv.AppendReplyArgs) : AppendReplyArgs :=
  { term := a.term, success := a.success }

def Snapshot.ofDomain (s : OxideKv.Snapshot) : Snapshot :=
  { lastIncludedIndex := s.lastIncludedIndex
    lastIncludedTerm := s.lastIncludedTerm
    data := s.data }

def InstallSnapshotArgs.ofDomain (a : OxideKv.InstallSnapshotArgs) : InstallSnapshotArgs :=
  { term := a.term
    leaderId := a.leaderId
    lastIncludedIndex := a.lastIncludedIndex
    lastIncludedTerm := a.lastIncludedTerm
    snapshot := some (.ofDomain a.snapshot) }

def InstallSnapshotReplyArgs.ofDomain (a : OxideKv.InstallSnapshotReplyArgs) :
    InstallSnapshotReplyArgs :=
  { term := a.term }

end Pb

def encodeDomain (domain : RaftMessage) : Pb.RaftMessage :=
  { body := some <|
      match domain with
      | .requestVote a => .requestVote (.ofDomain a)
      | .voteResponse a => .voteResponse (.ofDomain a)
      | .appendEntries a => .appendEntries (.ofDomain a)
      | .appendReply a => .appendReply (.ofDomain a)
      | .installSnapshot a => .installSnapshot (.ofDomain a)
      | .installSnapshotReply a => .installSnapshotReply (.ofDomain a)
      | .requestPreVote a => .requestPreVote (.ofDomain a)
      | .preVoteResponse a => .preVoteResponse (.ofDomain a)
      | .joinCluster req => .joinCluster { candidateAddr := req.candidateAddr }
      | .joinClusterResponse resp =>
          .joinClusterResponse
            { accepted := resp.accepted
              term := resp.term
              leaderAddr := resp.leaderAddr
              peerAddrs := resp.peerAddrs
              reason := resp.reason } }

namespace Pb

/-! ## From the wire -/

def ServerId.toDomain (s : ServerId) : OxideKv.ServerId :=
  { nodeId := s.nodeId, addr := s.addr }

def ConfigurationEntry.toDomain (c : ConfigurationEntry) : Configuration :=
  let old := c.oldServers.map ServerId.toDomain
  let new := c.newServers.map ServerId.toDomain
  match c.getKind with
  | .simple => .simple new
  | .joint => .joint old new
  | .unspecified => .simple new

def TxOp.toDomain (p : TxOp) : OxideKv.TxOp :=
  match p.body with
  | some (.put s) => .put s.key s.value
  | some (.delete d) => .delete d.key
  | none => .delete ""

def Command.toDomain (p : Command) : OxideKv.Command :=
  match p.body with
  | some (.set s) => .set s.key s.value
  | some (.get g) => .get g.key
  | some (.delete d) => .delete d.key
  | some (.compact _) => .compact
  | some (.beginTx b) => .beginTx b.txId (b.ops.map TxOp.toDomain)
  | some (.decideTx d) => .decideTx d.txId (if d.commit then .commit else .abort)
  | some (.addNode _) => .compact
  | some (.removeNode _) => .compact
  | some (.installConfiguration c) => .installConfiguration c.toDomain
  | some (.abortTx _) => .compact
  | none => .compact

def LogEntry.toDomain (p : LogEntry) : OxideKv.LogEntry :=
  { term := p.term
    index := p.index
    command := (p.command.map Command.toDomain).getD .compact }

def RequestVoteArgs.toDomain (p : RequestVoteArgs) : OxideKv.RequestVoteArgs :=
  { term := p.term
    candidateId := p.candidateId
    lastLogIndex := p.lastLogIndex
    lastLogTerm := p.lastLogTerm }

def VoteResponseArgs.toDomain (p : VoteResponseArgs) : OxideKv.VoteResponseArgs :=
  { term := p.term, voteGranted := p.voteGranted }

def AppendEntriesArgs.toDomain (p : AppendEntriesArgs) : OxideKv.AppendEntriesArgs :=
  { term := p.term
    leaderId := p.leaderId
    prevLogIndex := p.prevLogIndex
    prevLogTerm := p.prevLogTerm
    entries := p.entries.map LogEntry.toDomain
    leaderCommit := p.leaderCommit }

def AppendReplyArgs.toDomain (p : AppendReplyArgs) : OxideKv.AppendReplyArgs :=
  { term := p.term, success := p.success }

def Snapshot.toDomain (p : Snapshot) : OxideKv.Snapshot :=
  { lastIncludedIndex := p.lastIncludedIndex
    lastIncludedTerm := p.lastIncludedTerm
    data := p.data }

def InstallSnapshotArgs.toDomain (p : InstallSnapshotArgs) : OxideKv.InstallSnapshotArgs :=
  { term := p.term
    leaderId := p.leaderId
    lastIncludedIndex := p.lastIncludedIndex
    lastIncludedTerm := p.lastIncludedTerm
    snapshot := (p.snapshot.map Snapshot.toDomain).getD
      { lastIncludedIndex := p.lastIncludedIndex
        lastIncludedTerm := p.lastIncludedTerm
        data := ∅ } }

def InstallSnapshotReplyArgs.toDomain (p : InstallSnapshotReplyArgs) :
    OxideKv.InstallSnapshotReplyArgs :=
  { term := p.term }

end Pb

def decodeDomain (p : Pb.RaftMessage) : RaftMessage :=
  match p.body with
  | some (.requestVote a) => .requestVote a.toDomain
  | some (.voteResponse a) => .voteResponse a.toDomain
  | some (.appendEntries a) => .appendEntries a.toDomain
  | some (.appendReply a) => .appendReply a.toDomain
  | some (.installSnapshot a) => .installSnapshot a.toDomain
  | some (.installSnapshotReply a) => .installSnapshotReply a.toDomain
  | some (.requestPreVote a) => .requestPreVote a.toDomain
  | some (.preVoteResponse a) => .preVoteResponse a.toDomain
  | some (.joinCluster req) => .joinCluster { candidateAddr := req.candidateAddr }
  | some (.joinClusterResponse resp) =>
      .joinClusterResponse
        { accepted := resp.accepted
          term := resp.term
          leaderAddr := resp.leaderAddr
          peerAddrs := resp.peerAddrs
          reason := resp.reason }
  | none => .voteResponse { term := 0, voteGranted := false }

/-! ## The round trip -/

namespace Pb

open Function (LeftInverse)

theorem ServerId.toDomain_ofDomain : LeftInverse ServerId.toDomain ServerId.ofDomain := by
  intro s
  rfl

@[simp] theorem ServerId.map_toDomain_ofDomain (servers : List OxideKv.ServerId) :
    (servers.map ofDomain).map toDomain = servers :=
  ServerId.toDomain_ofDomain.list_map servers

theorem ConfigurationEntry.toDomain_ofDomain :
    LeftInverse ConfigurationEntry.toDomain ConfigurationEntry.ofDomain := by
  intro c
  cases c with
  | simple servers =>
    show Configuration.simple ((servers.map ServerId.ofDomain).map ServerId.toDomain) = _
    rw [ServerId.map_toDomain_ofDomain]
  | joint old new =>
    show Configuration.joint ((old.map ServerId.ofDomain).map ServerId.toDomain)
      ((new.map ServerId.ofDomain).map ServerId.toDomain) = _
    rw [ServerId.map_toDomain_ofDomain, ServerId.map_toDomain_ofDomain]

theorem TxOp.toDomain_ofDomain : LeftInverse TxOp.toDomain TxOp.ofDomain := by
  intro op
  cases op <;> rfl

theorem Command.toDomain_ofDomain {c : OxideKv.Command} (h : c.isReplicated) :
    (Command.ofDomain c).toDomain = c := by
  cases c with
  | set | get | delete | compact => rfl
  | beginTx txId ops =>
    show OxideKv.Command.beginTx txId ((ops.map TxOp.ofDomain).map TxOp.toDomain) = _
    rw [TxOp.toDomain_ofDomain.list_map ops]
  | decideTx txId decision => cases decision <;> rfl
  | installConfiguration config =>
    show OxideKv.Command.installConfiguration (ConfigurationEntry.ofDomain config).toDomain = _
    rw [ConfigurationEntry.toDomain_ofDomain config]
  | addNode | removeNode | abortTx => cases h

theorem LogEntry.toDomain_ofDomain {e : OxideKv.LogEntry} (h : e.command.isReplicated) :
    (LogEntry.ofDomain e).toDomain = e := by
  show ({ term := e.term, index := e.index, command := (Command.ofDomain e.command).toDomain } :
    OxideKv.LogEntry) = e
  rw [Command.toDomain_ofDomain h]

theorem LogEntry.map_toDomain_ofDomain {entries : List OxideKv.LogEntry}
    (h : ∀ e ∈ entries, e.command.isReplicated) :
    (entries.map ofDomain).map toDomain = entries := by
  calc (entries.map ofDomain).map toDomain = entries.map (toDomain ∘ ofDomain) := List.map_map
    _ = entries.map id := List.map_congr_left fun e he => toDomain_ofDomain (h e he)
    _ = entries := List.map_id entries

end Pb

/-- Both families of conversions fit together, for every message. -/
theorem decode_encode_domain (m : RaftMessage) (h : ∀ e ∈ m.entries, e.command.isReplicated) :
    decodeDomain (encodeDomain m) = m := by
  cases m with
  | appendEntries args =>
    have hentries : (args.entries.map Pb.LogEntry.ofDomain).map Pb.LogEntry.toDomain =
        args.entries := Pb.LogEntry.map_toDomain_ofDomain h
    show RaftMessage.appendEntries { args with
      entries := (args.entries.map Pb.LogEntry.ofDomain).map Pb.LogEntry.toDomain } = _
    rw [hentries]
  | _ => rfl

theorem decode_encode_domain_transaction :
    let m := RaftMessage.appendEntries
      { term := 3
        leaderId := "a"
        prevLogIndex := 4
        prevLogTerm := 2
        entries :=
          [{ term := 3, index := 5, command := .beginTx "t" [.put "k" "v", .delete "l"] },
            { term := 3, index := 6, command := .decideTx "t" .abort },
            { term := 3, index := 7,
              command := .installConfiguration (.joint [⟨"a", "a:1"⟩] [⟨"a", "a:1"⟩, ⟨"b", "b:1"⟩]) }]
        leaderCommit := 4 }
    decodeDomain (encodeDomain m) = m :=
  decode_encode_domain _ (by decide)

end OxideKv
