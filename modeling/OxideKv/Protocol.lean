import Mathlib.Algebra.Order.Ring.Nat
import Mathlib.Data.List.Infix
import Mathlib.Order.Lattice

/-!
# The replicated commands and the cluster configuration

The types of `protocol.rs` and `coordination.rs` that the Raft log, the
state machine and the RPC handlers share, and the two quorum functions of
the leader.

Indices, terms and lengths are `Nat`.  The width of the machine integers
shows in two places.  `usizePred` is `index - 1` in a release build, which
wraps at zero: `handle_append_entries` computes it on an index it read off
the wire.  `u64Succ` is `term + 1`, which wraps at the last term.
-/

namespace OxideKv

/-- `usize` subtraction of one, with the wrap of a release build. -/
def usizePred (index : Nat) : Nat :=
  if index = 0 then 2 ^ 64 - 1 else index - 1

@[simp] theorem usizePred_succ (i : Nat) : usizePred (i + 1) = i := rfl

/-- `u64` addition of one, with the wrap of a release build. -/
def u64Succ (n : Nat) : Nat :=
  if n + 1 = 2 ^ 64 then 0 else n + 1

theorem u64Succ_of_ne {n : Nat} (h : n + 1 ≠ 2 ^ 64) : u64Succ n = n + 1 := by
  rw [u64Succ, if_neg h]

/-- One operation of a transaction. -/
inductive TxOp where
  | put (key value : String)
  | delete (key : String)
deriving Repr, DecidableEq

/-- One peer's decision on a pending transaction. -/
inductive Vote where
  | yes
  | no (reason : String)
deriving Repr, DecidableEq

inductive TxDecision where
  | commit
  | abort
deriving Repr, DecidableEq

/-- Stable identity of a server: the logical name and the dial address. -/
structure ServerId where
  nodeId : String
  addr : String
deriving Repr, DecidableEq

/-- Active cluster configuration.  `joint` is the intermediate state of a
membership change. -/
inductive Configuration where
  | simple (servers : List ServerId)
  | joint (old new : List ServerId)
deriving Repr, DecidableEq

/-- A command of the replicated log, or of a client. -/
inductive Command where
  | set (key value : String)
  | get (key : String)
  | delete (key : String)
  | compact
  | abortTx (txId : String)
  | beginTx (txId : String) (ops : List TxOp)
  | decideTx (txId : String) (decision : TxDecision)
  | addNode (server : ServerId)
  | removeNode (nodeId : String)
  | installConfiguration (config : Configuration)
deriving Repr, DecidableEq

/-- The command leaves the configuration alone. -/
def Command.isPlain : Command → Bool
  | .installConfiguration _ => false
  | _ => true

structure LogEntry where
  term : Nat
  index : Nat
  command : Command
deriving Repr, DecidableEq

namespace Configuration

/-- Every server that receives `AppendEntries` under the configuration.  A
`joint` configuration lists `old` first, then the servers of `new` whose
`nodeId` is not listed yet. -/
def allServers : Configuration → List ServerId
  | .simple servers => servers
  | .joint old new =>
      new.foldl
        (fun combined s =>
          if combined.any (fun x => x.nodeId == s.nodeId) then combined
          else combined ++ [s])
        old

/-- Whether `nodeId` is a member of the configuration. -/
def contains (config : Configuration) (nodeId : String) : Bool :=
  config.allServers.any (fun s => s.nodeId == nodeId)

end Configuration

/-- A finite map of a node from peer address to log index, `HashMap<String,
u64>` in the source. -/
abbrev IndexMap := String → Option Nat

/-- The index that `config_quorum_reached` reads for one server. -/
def replicatedIndex (matchIndex : IndexMap) (selfNodeId : String)
    (selfIndex : Nat) (s : ServerId) : Nat :=
  if s.nodeId = selfNodeId then selfIndex else (matchIndex s.nodeId).getD 0

/-- The counting loop of `config_quorum_reached` over one server list. -/
def majorityReached (servers : List ServerId) (matchIndex : IndexMap)
    (selfNodeId : String) (selfIndex index : Nat) : Bool :=
  decide (servers.length / 2 <
    servers.countP
      (fun s => decide (index ≤ replicatedIndex matchIndex selfNodeId selfIndex s)))

/-- `config_quorum_reached`: a majority of `simple`, or of both `old` and
`new` of `joint`, holds `index`. -/
def configQuorumReached (config : Configuration) (matchIndex : IndexMap)
    (selfNodeId : String) (selfIndex index : Nat) : Bool :=
  match config with
  | .simple servers =>
      majorityReached servers matchIndex selfNodeId selfIndex index
  | .joint old new =>
      majorityReached old matchIndex selfNodeId selfIndex index &&
        majorityReached new matchIndex selfNodeId selfIndex index

/-- The binary search of `config_quorum_reached_index`.  Every turn shrinks
`hi - lo`, so `fuel` above that difference is never used up. -/
def quorumSearch (reached : Nat → Bool) : Nat → Nat → Nat → Nat → Nat
  | 0, _, _, best => best
  | fuel + 1, lo, hi, best =>
      if lo ≤ hi then
        let mid := (lo + hi) / 2
        if reached mid then
          if mid = hi then mid
          else quorumSearch reached fuel (mid + 1) hi mid
        else if mid = 0 then best
        else quorumSearch reached fuel lo (mid - 1) best
      else best

/-- `config_quorum_reached_index`: the highest index that reaches the quorum,
`0` when none does. -/
def configQuorumReachedIndex (config : Configuration) (matchIndex : IndexMap)
    (selfNodeId : String) (selfIndex : Nat) : Nat :=
  quorumSearch (configQuorumReached config matchIndex selfNodeId selfIndex)
    (selfIndex + 1) 1 selfIndex 0

/-- A value that the search returns is the start value or reaches the
quorum. -/
theorem quorumSearch_reached (reached : Nat → Bool) :
    ∀ (fuel lo hi best : Nat), 0 < lo →
      quorumSearch reached fuel lo hi best = best ∨
        (reached (quorumSearch reached fuel lo hi best) = true ∧
          lo ≤ quorumSearch reached fuel lo hi best ∧
          quorumSearch reached fuel lo hi best ≤ hi) := by
  intro fuel
  induction fuel with
  | zero =>
    intro lo hi best _
    exact Or.inl rfl
  | succ fuel ih =>
    intro lo hi best hlo
    rw [quorumSearch]
    dsimp only
    split_ifs with hle hmid heq hzero
    · exact Or.inr ⟨hmid, by omega, by omega⟩
    · rcases ih ((lo + hi) / 2 + 1) hi ((lo + hi) / 2) (by omega) with h | ⟨hr, h1, h2⟩
      · rw [h]
        exact Or.inr ⟨hmid, by omega, by omega⟩
      · exact Or.inr ⟨hr, by omega, h2⟩
    · exact Or.inl rfl
    · rcases ih lo ((lo + hi) / 2 - 1) best hlo with h | ⟨hr, h1, h2⟩
      · exact Or.inl h
      · exact Or.inr ⟨hr, h1, by omega⟩
    · exact Or.inl rfl

/-- A positive result of `configQuorumReachedIndex` is an index inside the
log at which the quorum is reached. -/
theorem configQuorumReachedIndex_reached {config : Configuration}
    {matchIndex : IndexMap} {selfNodeId : String} {selfIndex : Nat}
    (h : 0 < configQuorumReachedIndex config matchIndex selfNodeId selfIndex) :
    configQuorumReached config matchIndex selfNodeId selfIndex
        (configQuorumReachedIndex config matchIndex selfNodeId selfIndex) = true ∧
      configQuorumReachedIndex config matchIndex selfNodeId selfIndex ≤ selfIndex := by
  rcases quorumSearch_reached
      (configQuorumReached config matchIndex selfNodeId selfIndex)
      (selfIndex + 1) 1 selfIndex 0 (by omega) with h0 | ⟨hr, _, hle⟩
  · rw [configQuorumReachedIndex, h0] at h
    omega
  · exact ⟨hr, hle⟩

end OxideKv
