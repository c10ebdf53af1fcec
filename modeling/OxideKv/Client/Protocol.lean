import OxideKv.Client.Json
import OxideKv.Raft.Coordinator

/-!
# Commands and replies of the client port

What `#[derive(Deserialize)]` makes of the types in `protocol.rs`, the replies
of `client.rs`, and the requests and the processing of replies in both client
libraries.

A command is tagged from outside: an object with the name of the variant as its
only key, or the name alone for a variant without fields.  The fields stand in
an object, in any order and beside others, or in an array.

* `Command.ofJson`: the commands that a request can be.
* `ClientReply.toJson`, `Answers`: the replies, and which of them
  `dispatch_command` gives to a command.
* `Client`, `PyClient`: the two libraries.
-/

namespace OxideKv

open Fallible (IoError)

/-! ## Derived readers -/

namespace Serde

/-- The fields of a struct. -/
def fields (names : List String) : Json → Option (List Json)
  | .obj fields => names.mapM fun name =>
      match fields.filter fun f => f.1 = name with
      | [f] => some f.2
      | _ => none
  | .arr items => if items.length = names.length then some items else none
  | _ => none

/-- Fields of type `String`. -/
def strings (names : List String) (v : Json) : Option (List String) :=
  (fields names v).bind (List.mapM Json.asStr)

/-- The name of the variant, and what is behind it. -/
def variant : Json → Option (String × Option Json)
  | .str name => some (name, none)
  | .obj [(name, content)] => some (name, some content)
  | _ => none

/-- A variant without fields. -/
def isUnit : Option Json → Bool
  | none | some .null => true
  | _ => false

/-- `Vec`. -/
def list {α : Type} (item : Json → Option α) : Json → Option (List α)
  | .arr items => items.mapM item
  | _ => none

end Serde

open Serde

def TxOp.ofJson (v : Json) : Option TxOp :=
  match variant v with
  | some ("Put", some content) =>
      match strings ["key", "value"] content with
      | some [key, value] => some (.put key value)
      | _ => none
  | some ("Delete", some content) =>
      match strings ["key"] content with
      | some [key] => some (.delete key)
      | _ => none
  | _ => none

def TxDecision.ofJson (v : Json) : Option TxDecision :=
  match variant v with
  | some ("Commit", content) => if isUnit content then some .commit else none
  | some ("Abort", content) => if isUnit content then some .abort else none
  | _ => none

def ServerId.ofJson (v : Json) : Option ServerId :=
  match strings ["node_id", "addr"] v with
  | some [nodeId, addr] => some { nodeId := nodeId, addr := addr }
  | _ => none

def Configuration.ofJson (v : Json) : Option Configuration :=
  match variant v with
  | some ("Simple", some content) => (list ServerId.ofJson content).map .simple
  | some ("Joint", some content) =>
      match fields ["old", "new"] content with
      | some [old, new] => do
          let old ← list ServerId.ofJson old
          let new ← list ServerId.ofJson new
          return .joint old new
      | _ => none
  | _ => none

def Command.ofJson (v : Json) : Option Command :=
  match variant v with
  | some ("Set", some content) =>
      match strings ["key", "value"] content with
      | some [key, value] => some (.set key value)
      | _ => none
  | some ("Get", some content) =>
      match strings ["key"] content with
      | some [key] => some (.get key)
      | _ => none
  | some ("Delete", some content) =>
      match strings ["key"] content with
      | some [key] => some (.delete key)
      | _ => none
  | some ("Compact", content) => if isUnit content then some .compact else none
  | some ("AbortTx", some content) =>
      match strings ["tx_id"] content with
      | some [txId] => some (.abortTx txId)
      | _ => none
  | some ("BeginTx", some content) =>
      match fields ["tx_id", "ops"] content with
      | some [txId, ops] => do
          let txId ← txId.asStr
          let ops ← list TxOp.ofJson ops
          return .beginTx txId ops
      | _ => none
  | some ("DecideTx", some content) =>
      match fields ["tx_id", "decision"] content with
      | some [txId, decision] => do
          let txId ← txId.asStr
          let decision ← TxDecision.ofJson decision
          return .decideTx txId decision
      | _ => none
  | some ("AddNode", some content) =>
      match fields ["server"] content with
      | some [server] => (ServerId.ofJson server).map .addNode
      | _ => none
  | some ("RemoveNode", some content) =>
      match strings ["node_id"] content with
      | some [nodeId] => some (.removeNode nodeId)
      | _ => none
  | some ("InstallConfiguration", some content) =>
      match fields ["config"] content with
      | some [config] => (Configuration.ofJson config).map .installConfiguration
      | _ => none
  | _ => none

/-! ## Replies -/

/-- The replies of `client.rs`. -/
inductive ClientReply where
  | notLeader
  | proposed (index : Nat)
  | notProposed
  | value (data : String)
  | notFound
  | readTimeout
  | transaction (outcome : TxOutcome)
  | membershipRefused (e : MembershipError)
  | jointTimeout (command : String) (jointIndex : Nat)
  | simplePending (jointIndex : Nat)
  | memberChanged (field nodeId : String) (jointIndex simpleIndex : Nat)
  | txAborted (txId : String) (decideIndex : Nat)
  | abortRefused (txId : String) (e : AbortTxError)
  | unsupported (message : String)
  | invalid (text : String)
deriving DecidableEq

def notLeaderText : String := "Not a leader. Please connect to the leader node."

section Replies

-- `IoError::to_string`
variable (errorText : IoError → String)

/-- `membership_error_to_json`. -/
def membershipErrorToJson : MembershipError → Json
  | .notLeader =>
      .object [("status", .str "error"), ("code", .str "not_leader"),
        ("message", .str notLeaderText)]
  | .alreadyMember id =>
      .object [("status", .str "error"), ("code", .str "already_member"), ("node_id", .str id)]
  | .notMember id =>
      .object [("status", .str "error"), ("code", .str "not_member"), ("node_id", .str id)]
  | .cannotRemoveSelf =>
      .object [("status", .str "error"), ("code", .str "cannot_remove_self"),
        ("message", .str "Refusing to remove the leader itself; do this on another node")]
  | .cannotRemoveLastServer =>
      .object [("status", .str "error"), ("code", .str "cannot_remove_last_server"),
        ("message", .str ("Refusing to remove the last server; " ++
          "the cluster would be unable to make progress"))]
  | .storageError e =>
      .object [("status", .str "error"), ("code", .str "storage_error"),
        ("message", .str (errorText e))]

/-- `abort_tx_error_to_json`, with the `tx_id` that `abort_tx` puts in. -/
def abortTxErrorToJson (txId : String) : AbortTxError → Json
  | .notLeader =>
      .object [("status", .str "error"), ("code", .str "not_leader"),
        ("message", .str notLeaderText), ("tx_id", .str txId)]
  | .notFound _ =>
      .object [("status", .str "error"), ("code", .str "tx_not_found"), ("tx_id", .str txId),
        ("message", .str "tx_id is not in pending_txs; already committed/aborted or never existed")]
  | .storageError e =>
      .object [("status", .str "error"), ("code", .str "storage_error"),
        ("message", .str (errorText e)), ("tx_id", .str txId)]

def ClientReply.toJson : ClientReply → Json
  | .notLeader => .object [("error", .str notLeaderText)]
  | .proposed index => .object [("status", .str "ok"), ("index", .num index)]
  | .notProposed => .object [("status", .str "error")]
  | .value data => .object [("status", .str "ok"), ("data", .str data)]
  | .notFound => .object [("status", .str "not_found")]
  | .readTimeout =>
      .object [("status", .str "error"),
        ("message", .str "read confirmation timeout (leader may have lost quorum)")]
  | .transaction (.committed beginIndex decideIndex txId) =>
      .object [("status", .str "ok"), ("tx_id", .str txId), ("decision", .str "commit"),
        ("begin_index", .num beginIndex), ("decide_index", .num decideIndex)]
  | .transaction (.aborted txId reason) =>
      .object [("status", .str "aborted"), ("tx_id", .str txId), ("reason", .str reason)]
  | .transaction (.notLeader txId) =>
      .object [("status", .str "error"), ("message", .str "not leader"), ("tx_id", .str txId)]
  | .membershipRefused e => membershipErrorToJson errorText e
  | .jointTimeout command jointIndex =>
      .object [("status", .str "error"),
        ("message",
          .str s!"{command}: Joint entry at index {jointIndex} did not commit within 10s")]
  | .simplePending jointIndex =>
      .object [("status", .str "ok"), ("joint_index", .num jointIndex),
        ("simple_appended", .bool false)]
  | .memberChanged field nodeId jointIndex simpleIndex =>
      .object [("status", .str "ok"), ("joint_index", .num jointIndex),
        ("simple_index", .num simpleIndex), (field, .str nodeId)]
  | .txAborted txId decideIndex =>
      .object [("status", .str "ok"), ("tx_id", .str txId), ("decision", .str "abort"),
        ("decide_index", .num decideIndex)]
  | .abortRefused txId e => abortTxErrorToJson errorText txId e
  | .unsupported message => .object [("status", .str "error"), ("message", .str message)]
  | .invalid text =>
      .object [("status", .str "error"), ("message", .str s!"Invalid JSON: {text}")]

end Replies

/-- The replies that `dispatch_command` can give to a command. -/
def Answers : Command → ClientReply → Prop
  | _, .notLeader => True
  | .set _ _, r | .delete _, r | .decideTx _ _, r =>
      (∃ index, r = .proposed index) ∨ r = .notProposed
  | .get _, r => (∃ data, r = .value data) ∨ r = .notFound ∨ r = .readTimeout
  | .beginTx txId _, r => (∃ beginIndex decideIndex,
      r = .transaction (.committed beginIndex decideIndex txId)) ∨
      (∃ reason, r = .transaction (.aborted txId reason)) ∨ r = .transaction (.notLeader txId)
  | .compact, r => r = .unsupported "compact not supported yet"
  | .addNode server, r => (∃ e, r = .membershipRefused e) ∨
      ∃ jointIndex, r = .jointTimeout "AddNode" jointIndex ∨ r = .simplePending jointIndex ∨
        r = .memberChanged "new_member" server.nodeId jointIndex (jointIndex + 1)
  | .removeNode nodeId, r => (∃ e, r = .membershipRefused e) ∨
      ∃ jointIndex, r = .jointTimeout "RemoveNode" jointIndex ∨ r = .simplePending jointIndex ∨
        r = .memberChanged "removed_member" nodeId jointIndex (jointIndex + 1)
  | .installConfiguration _, r =>
      r = .unsupported
        "InstallConfiguration is a leader-internal log entry; not a valid client command"
  | .abortTx txId, r => (∃ decideIndex, r = .txAborted txId decideIndex) ∨
      ∃ e, r = .abortRefused txId e

/-- The replies of `dispatch_command` are values that `json!` builds. -/
theorem Answers.canonical (errorText : IoError → String) {c : Command} {r : ClientReply}
    (h : Answers c r) : (r.toJson errorText).Canonical := by
  cases r with
  | memberChanged field nodeId jointIndex simpleIndex =>
    have hfield : field = "new_member" ∨ field = "removed_member" := by
      cases c <;> simp_all [Answers]
    rcases hfield with rfl | rfl <;>
      exact Json.object_canonical (by simp) (by simp [Json.Canonical])
  | transaction outcome =>
    cases outcome <;> exact Json.object_canonical (by simp) (by simp [Json.Canonical])
  | membershipRefused e =>
    cases e <;> exact Json.object_canonical (by simp) (by simp [Json.Canonical])
  | abortRefused txId e =>
    cases e <;> exact Json.object_canonical (by simp) (by simp [Json.Canonical])
  | _ => exact Json.object_canonical (by simp) (by simp [Json.Canonical])

theorem ClientReply.invalid_canonical (errorText : IoError → String) (text : String) :
    ((invalid text).toJson errorText).Canonical :=
  Json.object_canonical (by simp) (by simp [Json.Canonical])

end OxideKv
