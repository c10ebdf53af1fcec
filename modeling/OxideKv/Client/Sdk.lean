import OxideKv.Client.Protocol

/-!
# The client libraries

`oxide-kv-client` and the Python package send the same requests, but for the
operations of a transaction, and read the same replies.

* `Client`: the requests of the Rust library and what it makes of a reply.
* `PyClient`: the same for Python.
* `beginTx_decoded`: the server takes a transaction of the Rust library
  only when it is empty.
* `sdks_agree`: one library returns a value where the other does.
-/

namespace OxideKv

open Serde
open Fallible (IoError)

/-! ## Rust -/

inductive ClientError where
  | notLeader (text : String)
  | txAborted (txId reason : String)
  | server (text : String)
  | malformedResponse (text : String)
  | transport (text : String)
  | connectionClosed
deriving Repr, DecidableEq

structure TxResult where
  decision : String
  beginIndex : Nat
  decideIndex : Nat
  txId : String
deriving Repr, DecidableEq

namespace Client

def setRequest (key value : String) : Json :=
  .object [("Set", .object [("key", .str key), ("value", .str value)])]

def getRequest (key : String) : Json := .object [("Get", .object [("key", .str key)])]

def deleteRequest (key : String) : Json := .object [("Delete", .object [("key", .str key)])]

/-- `Transaction::set` and `Transaction::delete` push these. -/
def opJson : TxOp → Json
  | .put key value => .object [("put", .object [("key", .str key), ("value", .str value)])]
  | .delete key => .object [("delete", .object [("key", .str key)])]

/-- The request of `send_begin_tx`. -/
def beginRequest (txId : String) (ops : List Json) : Json :=
  .object [("BeginTx", .object [("tx_id", .str txId), ("ops", .arr ops)])]

/-- The request of `send_decide_tx`. -/
def decideRequest (txId : String) (commit : Bool) : Json :=
  let decision := if commit then .object [("Commit", .null)] else .object [("Abort", .null)]
  .object [("DecideTx", .object [("tx_id", .str txId), ("decision", decision)])]

section

-- `Display` of a `Value`
variable (text : Json → String)

/-- `str::starts_with`. -/
def startsWith (s start : String) : Bool := start.toList.isPrefixOf s.toList

def checkNotLeader (resp : Json) : Except ClientError Unit :=
  match (resp.get "error").bind Json.asStr with
  | some msg => .error (if startsWith msg "Not a leader" then .notLeader msg else .server msg)
  | none => .ok ()

/-- The text of an error in a reply. -/
def errorMessage (resp : Json) : String :=
  ((resp.get "message").bind Json.asStr).getD "server error"

/-- A field with an index. -/
def indexField (resp : Json) (name : String) : Except ClientError Nat :=
  match (resp.get name).bind Json.asU64 with
  | some index => .ok index
  | none => .error (.server s!"missing {name}: {text resp}")

def parseIndexResponse (resp : Json) : Except ClientError Nat := do
  checkNotLeader resp
  match (resp.get "status").bind Json.asStr with
  | some "ok" => indexField text resp "index"
  | some "error" => .error (.server (errorMessage resp))
  | _ => .error (.server s!"unexpected response: {text resp}")

/-- The end of `get`. -/
def parseGetResponse (resp : Json) : Except ClientError (Option String) := do
  checkNotLeader resp
  match (resp.get "status").bind Json.asStr with
  | some "ok" => .ok ((resp.get "data").bind Json.asStr)
  | some "not_found" => .ok none
  | _ => .error (.server s!"unexpected Get response: {text resp}")

/-- The end of `send_begin_tx`. -/
def parseBeginResponse (txId : String) (resp : Json) : Except ClientError TxResult := do
  checkNotLeader resp
  match (resp.get "status").bind Json.asStr with
  | some "ok" =>
      let beginIndex ← indexField text resp "begin_index"
      let decideIndex ← indexField text resp "decide_index"
      .ok
        { decision := ((resp.get "decision").bind Json.asStr).getD "commit"
          beginIndex := beginIndex
          decideIndex := decideIndex
          txId := txId }
  | some "aborted" =>
      .error (.txAborted txId (((resp.get "reason").bind Json.asStr).getD ""))
  | some "error" => .error (.server (errorMessage resp))
  | _ => .error (.server s!"unexpected BeginTx response: {text resp}")

end

end Client

/-! ## Python -/

/-- The exceptions. -/
inductive PyError where
  | notLeader (text : String)
  | txAborted (txId reason : String)
  | oxideKv (text : String)
  | keyError (key : String)
  /-- `int` of something else than a number. -/
  | valueError
deriving Repr, DecidableEq

namespace PyClient

def setRequest (key value : String) : Json :=
  .obj [("Set", .obj [("key", .str key), ("value", .str value)])]

def getRequest (key : String) : Json := .obj [("Get", .obj [("key", .str key)])]

def deleteRequest (key : String) : Json := .obj [("Delete", .obj [("key", .str key)])]

/-- `Transaction.set` and `Transaction.delete` append these. -/
def opJson : TxOp → Json
  | .put key value => .obj [("Put", .obj [("key", .str key), ("value", .str value)])]
  | .delete key => .obj [("Delete", .obj [("key", .str key)])]

/-- The payload of `_commit_tx`. -/
def beginRequest (txId : String) (ops : List Json) : Json :=
  .obj [("BeginTx", .obj [("tx_id", .str txId), ("ops", .arr ops)])]

/-- The payload of `_send_decide`. -/
def decideRequest (txId : String) (commit : Bool) : Json :=
  let decision := if commit then .obj [("Commit", .null)] else .obj [("Abort", .null)]
  .obj [("DecideTx", .obj [("tx_id", .str txId), ("decision", decision)])]

section

-- `repr` of the decoded reply
variable (repr : Json → String)

/-- `in` on strings. -/
def contains (part s : String) : Bool := s.toList.tails.any fun t => part.toList.isPrefixOf t

/-- A value where the code expects a string. -/
def textOf (v : Json) : String := v.asStr.getD (repr v)

/-- The check of `_request`. -/
def request (resp : Json) : Except PyError Json :=
  match resp.get "error" with
  | some e =>
      if contains "Not a leader" (textOf repr e) then .error (.notLeader (textOf repr e))
      else .ok resp
  | none => .ok resp

/-- `resp["index"]`. -/
def item (resp : Json) (key : String) : Except PyError Json :=
  match resp.get key with
  | some v => .ok v
  | none => .error (.keyError key)

def int (v : Json) : Except PyError Nat :=
  match v.asU64 with
  | some n => .ok n
  | none => .error .valueError

def status (resp : Json) : Option String := (resp.get "status").bind Json.asStr

/-- `_expect_ok`. -/
def expectOk (resp : Json) (wantIndex : Bool) : Except PyError Unit :=
  match resp.get "error" with
  | some e => .error (.oxideKv (textOf repr e))
  | none =>
      if status resp ≠ some "ok" then .error (.oxideKv s!"unexpected response: {repr resp}")
      else if wantIndex ∧ (resp.get "index").isNone then
        .error (.oxideKv s!"response missing index: {repr resp}")
      else .ok ()

/-- The end of `set` and of `delete`. -/
def indexResponse (resp : Json) : Except PyError Nat := do
  let resp ← request repr resp
  expectOk repr resp true
  int (← item resp "index")

/-- The end of `get`. -/
def getResponse (resp : Json) : Except PyError (Option String) := do
  let resp ← request repr resp
  match resp.get "error" with
  | some e => .error (.notLeader (textOf repr e))
  | none =>
      match status resp with
      | some "ok" => .ok ((resp.get "data").bind Json.asStr)
      | some "not_found" => .ok none
      | _ => .error (.oxideKv s!"unexpected Get response: {repr resp}")

/-- The end of `_commit_tx`. -/
def beginResponse (txId : String) (resp : Json) : Except PyError TxResult := do
  let resp ← request repr resp
  match resp.get "error", status resp with
  | some _, some "error" => .error (.oxideKv s!"unexpected BeginTx response: {repr resp}")
  | some e, _ => .error (.notLeader (textOf repr e))
  | none, some "ok" =>
      let decision ← item resp "decision"
      let beginIndex ← int (← item resp "begin_index")
      let decideIndex ← int (← item resp "decide_index")
      return {
        decision := textOf repr decision
        beginIndex := beginIndex
        decideIndex := decideIndex
        txId := txId }
  | none, some "aborted" =>
      .error (.txAborted txId (((resp.get "reason").bind Json.asStr).getD ""))
  | none, _ => .error (.oxideKv s!"unexpected BeginTx response: {repr resp}")

/-- The end of `_send_decide`. -/
def decideResponse (resp : Json) : Except PyError Unit := do
  let resp ← request repr resp
  expectOk repr resp false

end

end PyClient

/-! ## Requests -/

@[simp] theorem object_one (k : String) (v : Json) : Json.object [(k, v)] = .obj [(k, v)] := rfl

theorem object_two {k l : String} (h : k ≤ l) (v w : Json) :
    Json.object [(k, v), (l, w)] = .obj [(k, v), (l, w)] := by
  simp [Json.object, h]

theorem object_swapped {k l : String} (h : ¬k ≤ l) (v w : Json) :
    Json.object [(k, v), (l, w)] = .obj [(l, w), (k, v)] := by
  simp [Json.object, h]

namespace Client

theorem tagged_canonical (name : String) {v : Json} (h : v.Canonical) :
    (Json.object [(name, v)]).Canonical :=
  Json.object_canonical (by simp) fun f hf => by
    obtain rfl := List.mem_singleton.mp hf
    exact h

theorem setRequest_canonical (key value : String) : (setRequest key value).Canonical :=
  tagged_canonical "Set" (Json.object_canonical (by simp) (by simp [Json.Canonical]))

theorem getRequest_canonical (key : String) : (getRequest key).Canonical :=
  tagged_canonical "Get" (Json.object_canonical (by simp) (by simp [Json.Canonical]))

theorem opJson_canonical (op : TxOp) : (opJson op).Canonical := by
  cases op with
  | put key value =>
    exact tagged_canonical "put" (Json.object_canonical (by simp) (by simp [Json.Canonical]))
  | delete key =>
    exact tagged_canonical "delete" (Json.object_canonical (by simp) (by simp [Json.Canonical]))

theorem beginRequest_canonical (txId : String) (ops : List TxOp) :
    (beginRequest txId (ops.map opJson)).Canonical := by
  have hops : (Json.arr (ops.map opJson)).Canonical := by
    refine Json.canonicalItems_iff.mpr fun v hv => ?_
    obtain ⟨op, -, rfl⟩ := List.mem_map.mp hv
    exact opJson_canonical op
  refine tagged_canonical "BeginTx" (Json.object_canonical (by simp) fun f hf => ?_)
  obtain rfl | hf := List.mem_cons.mp hf
  · trivial
  · obtain rfl := List.mem_singleton.mp hf
    exact hops

end Client

/-! ## What the server makes of them -/

theorem pyOpJson_decoded (op : TxOp) : TxOp.ofJson (PyClient.opJson op) = some op := by
  cases op <;> simp [PyClient.opJson, TxOp.ofJson, variant, strings, fields, Json.asStr]

/-- The names of the variants are written with a capital. -/
theorem opJson_not_decoded (op : TxOp) : TxOp.ofJson (Client.opJson op) = none := by
  cases op <;> simp [Client.opJson, TxOp.ofJson, variant]

theorem list_map_decoded {α : Type} {read : Json → Option α} {write : α → Json}
    (h : ∀ a, read (write a) = some a) (as : List α) :
    list read (.arr (as.map write)) = some as := by
  show (as.map write).mapM read = some as
  induction as with
  | nil => rfl
  | cons a as ih => simp [h, ih]

/-- The requests of the libraries, and the commands they stand for.  The
transactions of the Rust library are not among them. -/
inductive SimpleRequest : Json → Command → Prop where
  | set (key value : String) : SimpleRequest (Client.setRequest key value) (.set key value)
  | get (key : String) : SimpleRequest (Client.getRequest key) (.get key)
  | delete (key : String) : SimpleRequest (Client.deleteRequest key) (.delete key)
  | decide (txId : String) (commit : Bool) : SimpleRequest (Client.decideRequest txId commit)
      (.decideTx txId (if commit then .commit else .abort))
  | pySet (key value : String) : SimpleRequest (PyClient.setRequest key value) (.set key value)
  | pyGet (key : String) : SimpleRequest (PyClient.getRequest key) (.get key)
  | pyDelete (key : String) : SimpleRequest (PyClient.deleteRequest key) (.delete key)
  | pyDecide (txId : String) (commit : Bool) : SimpleRequest (PyClient.decideRequest txId commit)
      (.decideTx txId (if commit then .commit else .abort))
  | pyBegin (txId : String) (ops : List TxOp) :
      SimpleRequest (PyClient.beginRequest txId (ops.map PyClient.opJson)) (.beginTx txId ops)

/-- The server takes them for what they are. -/
theorem SimpleRequest.decoded {v : Json} {c : Command} (h : SimpleRequest v c) :
    Command.ofJson v = some c := by
  cases h with
  | set key value =>
    rw [Client.setRequest, object_two (by decide), object_one]
    simp [Command.ofJson, variant, strings, fields, Json.asStr]
  | decide txId commit =>
    rw [Client.decideRequest, object_swapped (by decide), object_one]
    cases commit <;> simp [Command.ofJson, variant, fields, Json.asStr, TxDecision.ofJson, isUnit]
  | pyDecide txId commit =>
    cases commit <;>
      simp [PyClient.decideRequest, Command.ofJson, variant, fields, Json.asStr, TxDecision.ofJson,
        isUnit]
  | get key => simp [Client.getRequest, Command.ofJson, variant, strings, fields, Json.asStr]
  | delete key => simp [Client.deleteRequest, Command.ofJson, variant, strings, fields, Json.asStr]
  | pySet key value =>
    simp [PyClient.setRequest, Command.ofJson, variant, strings, fields, Json.asStr]
  | pyGet key => simp [PyClient.getRequest, Command.ofJson, variant, strings, fields, Json.asStr]
  | pyDelete key =>
    simp [PyClient.deleteRequest, Command.ofJson, variant, strings, fields, Json.asStr]
  | pyBegin txId ops =>
    have hops := list_map_decoded pyOpJson_decoded ops
    simp [PyClient.beginRequest, Command.ofJson, variant, fields, Json.asStr, hops]

/-- The server takes a transaction of the Rust library for a command when, and
only when, there is no operation in it. -/
theorem beginTx_decoded (txId : String) (ops : List TxOp) :
    Command.ofJson (Client.beginRequest txId (ops.map Client.opJson)) =
      if ops = [] then some (.beginTx txId []) else none := by
  rw [Client.beginRequest, object_swapped (by decide), object_one]
  cases ops with
  | nil => simp [Command.ofJson, variant, fields, Json.asStr, list]
  | cons op ops =>
    simp [Command.ofJson, variant, fields, Json.asStr, list, opJson_not_decoded]

/-! ## Replies -/

/-- Commands that `dispatch_command` puts into the log as they are. -/
def Command.IsMutation : Command → Prop
  | .set _ _ | .delete _ | .decideTx _ _ => True
  | _ => False

theorem Answers.of_mutation {c : Command} {r : ClientReply} (hc : c.IsMutation) (h : Answers c r) :
    r = .notLeader ∨ (∃ index, r = .proposed index) ∨ r = .notProposed := by
  cases c <;> first | exact hc.elim | skip
  all_goals cases r <;> simp_all [Answers]

theorem Answers.of_get {key : String} {r : ClientReply} (h : Answers (.get key) r) :
    r = .notLeader ∨ (∃ data, r = .value data) ∨ r = .notFound ∨ r = .readTimeout := by
  cases r <;> simp_all [Answers]

theorem Answers.of_beginTx {txId : String} {ops : List TxOp} {r : ClientReply}
    (h : Answers (.beginTx txId ops) r) :
    r = .notLeader ∨ (∃ beginIndex decideIndex,
      r = .transaction (.committed beginIndex decideIndex txId)) ∨
      (∃ reason, r = .transaction (.aborted txId reason)) ∨
      r = .transaction (.notLeader txId) := by
  cases r <;> simp_all [Answers]

section Replies

variable (errorText : IoError → String) (text : Json → String) {c : Command} {r : ClientReply}

theorem startsWith_notLeaderText : Client.startsWith notLeaderText "Not a leader" = true := by
  decide

theorem contains_notLeaderText : PyClient.contains "Not a leader" notLeaderText = true := by
  decide

attribute [local simp] Json.object Json.get Json.asStr Json.asU64 ClientReply.toJson
  startsWith_notLeaderText contains_notLeaderText bind Except.bind pure Except.pure

/-- What the Rust library returns for a command that is put into the log. -/
theorem parseIndexResponse_toJson (hc : c.IsMutation) (h : Answers c r) :
    Client.parseIndexResponse text (r.toJson errorText) =
      match r with
      | .proposed index => .ok index
      | .notLeader => .error (.notLeader notLeaderText)
      | _ => .error (.server "server error") := by
  rcases h.of_mutation hc with rfl | ⟨index, rfl⟩ | rfl
  all_goals
    simp [Client.parseIndexResponse, Client.checkNotLeader, Client.indexField,
      Client.errorMessage]

theorem parseGetResponse_toJson {key : String} (h : Answers (.get key) r) :
    Client.parseGetResponse text (r.toJson errorText) =
      match r with
      | .value data => .ok (some data)
      | .notFound => .ok none
      | .notLeader => .error (.notLeader notLeaderText)
      | _ => .error (.server s!"unexpected Get response: {text (r.toJson errorText)}") := by
  rcases h.of_get with rfl | ⟨data, rfl⟩ | rfl | rfl
  all_goals simp [Client.parseGetResponse, Client.checkNotLeader]

theorem parseBeginResponse_toJson {txId : String} {ops : List TxOp}
    (h : Answers (.beginTx txId ops) r) :
    Client.parseBeginResponse text txId (r.toJson errorText) =
      match r with
      | .transaction (.committed beginIndex decideIndex _) =>
          .ok
            { decision := "commit", beginIndex := beginIndex, decideIndex := decideIndex
              txId := txId }
      | .transaction (.aborted _ reason) => .error (.txAborted txId reason)
      | .notLeader => .error (.notLeader notLeaderText)
      | _ => .error (.server "not leader") := by
  rcases h.of_beginTx with rfl | ⟨b, d, rfl⟩ | ⟨reason, rfl⟩ | rfl
  all_goals
    simp [Client.parseBeginResponse, Client.checkNotLeader, Client.indexField,
      Client.errorMessage]

/-- A request that is no command is an error of the server. -/
theorem parseBeginResponse_invalid (txId e : String) :
    Client.parseBeginResponse text txId ((ClientReply.invalid e).toJson errorText) =
      .error (.server s!"Invalid JSON: {e}") := by
  simp [Client.parseBeginResponse, Client.checkNotLeader, Client.errorMessage]

theorem indexResponse_toJson (hc : c.IsMutation) (h : Answers c r) :
    PyClient.indexResponse text (r.toJson errorText) =
      match r with
      | .proposed index => .ok index
      | .notLeader => .error (.notLeader notLeaderText)
      | _ => .error (.oxideKv s!"unexpected response: {text (r.toJson errorText)}") := by
  rcases h.of_mutation hc with rfl | ⟨index, rfl⟩ | rfl
  all_goals
    simp [PyClient.indexResponse, PyClient.request, PyClient.textOf, PyClient.expectOk,
      PyClient.status, PyClient.item, PyClient.int]

theorem getResponse_toJson {key : String} (h : Answers (.get key) r) :
    PyClient.getResponse text (r.toJson errorText) =
      match r with
      | .value data => .ok (some data)
      | .notFound => .ok none
      | .notLeader => .error (.notLeader notLeaderText)
      | _ => .error (.oxideKv s!"unexpected Get response: {text (r.toJson errorText)}") := by
  rcases h.of_get with rfl | ⟨data, rfl⟩ | rfl | rfl
  all_goals
    simp [PyClient.getResponse, PyClient.request, PyClient.textOf, PyClient.status]

theorem beginResponse_toJson {txId : String} {ops : List TxOp}
    (h : Answers (.beginTx txId ops) r) :
    PyClient.beginResponse text txId (r.toJson errorText) =
      match r with
      | .transaction (.committed beginIndex decideIndex _) =>
          .ok
            { decision := "commit", beginIndex := beginIndex, decideIndex := decideIndex
              txId := txId }
      | .transaction (.aborted _ reason) => .error (.txAborted txId reason)
      | .notLeader => .error (.notLeader notLeaderText)
      | _ => .error (.oxideKv s!"unexpected BeginTx response: {text (r.toJson errorText)}") := by
  rcases h.of_beginTx with rfl | ⟨b, d, rfl⟩ | ⟨reason, rfl⟩ | rfl
  all_goals
    simp [PyClient.beginResponse, PyClient.request, PyClient.textOf, PyClient.status,
      PyClient.item, PyClient.int]

theorem decideResponse_toJson (hc : c.IsMutation) (h : Answers c r) :
    PyClient.decideResponse text (r.toJson errorText) =
      match r with
      | .proposed _ => .ok ()
      | .notLeader => .error (.notLeader notLeaderText)
      | _ => .error (.oxideKv s!"unexpected response: {text (r.toJson errorText)}") := by
  rcases h.of_mutation hc with rfl | ⟨index, rfl⟩ | rfl
  all_goals
    simp [PyClient.decideResponse, PyClient.request, PyClient.textOf, PyClient.expectOk,
      PyClient.status]

/-- What each library makes of a reply to a line that is no command. -/
theorem parse_invalid (repr : Json → String) (txId e : String) :
    let resp := (ClientReply.invalid e).toJson errorText
    Client.parseIndexResponse text resp = .error (.server s!"Invalid JSON: {e}") ∧
      PyClient.indexResponse repr resp =
        .error (.oxideKv s!"unexpected response: {repr resp}") ∧
      PyClient.decideResponse repr resp =
        .error (.oxideKv s!"unexpected response: {repr resp}") ∧
      Client.parseGetResponse text resp =
        .error (.server s!"unexpected Get response: {text resp}") ∧
      PyClient.getResponse repr resp =
        .error (.oxideKv s!"unexpected Get response: {repr resp}") ∧
      PyClient.beginResponse repr txId resp =
        .error (.oxideKv s!"unexpected BeginTx response: {repr resp}") := by
  simp [Client.parseIndexResponse, Client.checkNotLeader, Client.errorMessage,
    Client.parseGetResponse, PyClient.indexResponse, PyClient.decideResponse, PyClient.getResponse,
    PyClient.beginResponse, PyClient.request, PyClient.expectOk, PyClient.status]

/-- One reply, one result: the libraries return the same values, and both tell
their callers when the node is not the leader. -/
structure Agree {α β : Type} (rust : Except ClientError α) (python : Except PyError β)
    (same : α → β) : Prop where
  value : ∀ b, python = .ok b ↔ ∃ a, rust = .ok a ∧ same a = b
  notLeader : (∃ e, rust = .error (.notLeader e)) ↔ ∃ e, python = .error (.notLeader e)

theorem Agree.ok {α β : Type} (same : α → β) (a : α) :
    Agree (.ok a) (.ok (same a)) same :=
  ⟨by simp, by simp⟩

theorem Agree.errors {α β : Type} {same : α → β} {e : ClientError} {e' : PyError}
    (h : (∃ t, e = .notLeader t) ↔ ∃ t, e' = .notLeader t) :
    Agree (.error e) (.error e') same :=
  ⟨by simp, by simpa using h⟩

/-- The replies that a request can get: those of `dispatch_command`, and the
error when the server does not take it for a command. -/
def Gets (c : Command) (r : ClientReply) : Prop := Answers c r ∨ ∃ e, r = .invalid e

theorem sdks_agree (repr : Json → String) :
    (∀ {c r}, Command.IsMutation c → Gets c r →
      Agree (Client.parseIndexResponse text (r.toJson errorText))
          (PyClient.indexResponse repr (r.toJson errorText)) id ∧
        Agree (Client.parseIndexResponse text (r.toJson errorText))
          (PyClient.decideResponse repr (r.toJson errorText)) fun _ => ()) ∧
    (∀ {key r}, Gets (.get key) r →
      Agree (Client.parseGetResponse text (r.toJson errorText))
        (PyClient.getResponse repr (r.toJson errorText)) id) ∧
    (∀ {txId ops r}, Gets (.beginTx txId ops) r →
      Agree (Client.parseBeginResponse text txId (r.toJson errorText))
        (PyClient.beginResponse repr txId (r.toJson errorText)) id) := by
  refine ⟨?_, ?_, ?_⟩
  · rintro c r hc (h | ⟨e, rfl⟩)
    · rw [parseIndexResponse_toJson errorText text hc h, indexResponse_toJson errorText repr hc h,
        decideResponse_toJson errorText repr hc h]
      rcases h.of_mutation hc with rfl | ⟨index, rfl⟩ | rfl
      · exact ⟨.errors (by simp), .errors (by simp)⟩
      · exact ⟨.ok id index, .ok (fun _ => ()) index⟩
      · exact ⟨.errors (by simp), .errors (by simp)⟩
    · obtain ⟨hrust, hindex, hdecide, -⟩ := parse_invalid errorText text repr "" e
      rw [hrust, hindex, hdecide]
      exact ⟨.errors (by simp), .errors (by simp)⟩
  · rintro key r (h | ⟨e, rfl⟩)
    · rw [parseGetResponse_toJson errorText text h, getResponse_toJson errorText repr h]
      rcases h.of_get with rfl | ⟨data, rfl⟩ | rfl | rfl
      · exact .errors (by simp)
      · exact .ok id (some data)
      · exact .ok id none
      · exact .errors (by simp)
    · obtain ⟨-, -, -, hrust, hpython, -⟩ := parse_invalid errorText text repr "" e
      rw [hrust, hpython]
      exact .errors (by simp)
  · rintro txId ops r (h | ⟨e, rfl⟩)
    · rw [parseBeginResponse_toJson errorText text h, beginResponse_toJson errorText repr h]
      rcases h.of_beginTx with rfl | ⟨b, d, rfl⟩ | ⟨reason, rfl⟩ | rfl
      · exact .errors (by simp)
      · exact .ok id _
      · exact .errors (by simp)
      · exact .errors (by simp)
    · obtain ⟨-, -, -, -, -, hpython⟩ := parse_invalid errorText text repr txId e
      rw [parseBeginResponse_invalid, hpython]
      exact .errors (by simp)

/-- A committed transaction, and one that the server does not take for a
command. -/
theorem sdks_agree_commit :
    let committed := ClientReply.transaction (.committed 3 4 "t")
    let refused := ClientReply.invalid "unknown variant"
    Agree (Client.parseBeginResponse (fun _ => "") "t" (committed.toJson fun _ => ""))
        (PyClient.beginResponse (fun _ => "") "t" (committed.toJson fun _ => "")) id ∧
      Agree (Client.parseBeginResponse (fun _ => "") "t" (refused.toJson fun _ => ""))
        (PyClient.beginResponse (fun _ => "") "t" (refused.toJson fun _ => "")) id := by
  obtain ⟨-, -, hbegin⟩ := sdks_agree (fun _ => "") (fun _ => "") fun _ => ""
  have hanswers : Answers (.beginTx "t" []) (.transaction (.committed 3 4 "t")) :=
    .inl ⟨3, 4, rfl⟩
  exact ⟨hbegin (.inl hanswers), @hbegin "t" [] _ (.inr ⟨_, rfl⟩)⟩

end Replies

end OxideKv
