import OxideKv.StateMachine.Model

/-!
# The files of one Raft node

`RaftStorage` of `storage.rs`: the write-ahead log, the term and vote, and
the last snapshot.  A file is the value it decodes to, so the round trips of
`bincode` and `serde_json` are built in: `restore_wal_log` reads back the
records that `append_wal_log` wrote.  As in the LSM store, every file
operation takes its outcome off a list; the log file has a list of its own.
-/

namespace OxideKv

open Fallible
open Std (TreeMap)

/-- A state-machine snapshot at a known log position. -/
structure Snapshot where
  lastIncludedIndex : Nat
  lastIncludedTerm : Nat
  data : TreeMap String String

structure RaftStorage where
  /-- The records of the log file, in the order they were appended. -/
  wal : List LogEntry
  /-- The term and the vote; `none` before the file exists. -/
  metaFile : Option (Nat × Option String)
  snapshot : Option Snapshot
  walFaults : List Bool
  metaFaults : List Bool

/-! ## Record sizes -/

/-- `bincode` writes a length of eight bytes before the bytes of a string. -/
def stringBytes (s : String) : Nat := 8 + s.utf8ByteSize

def txOpBytes : TxOp → Nat
  | .put key value => 4 + stringBytes key + stringBytes value
  | .delete key => 4 + stringBytes key

def serverBytes (s : ServerId) : Nat := stringBytes s.nodeId + stringBytes s.addr

def serversBytes (servers : List ServerId) : Nat := 8 + (servers.map serverBytes).sum

def configurationBytes : Configuration → Nat
  | .simple servers => 4 + serversBytes servers
  | .joint old new => 4 + serversBytes old + serversBytes new

def commandBytes : Command → Nat
  | .set key value => 4 + stringBytes key + stringBytes value
  | .get key => 4 + stringBytes key
  | .delete key => 4 + stringBytes key
  | .compact => 4
  | .abortTx txId => 4 + stringBytes txId
  | .beginTx txId ops => 4 + stringBytes txId + (8 + (ops.map txOpBytes).sum)
  | .decideTx txId _ => 4 + stringBytes txId + 4
  | .addNode server => 4 + serverBytes server
  | .removeNode nodeId => 4 + stringBytes nodeId
  | .installConfiguration config => 4 + configurationBytes config

/-- The bytes of one record of the log file. -/
def entryBytes (entry : LogEntry) : Nat := 8 + 8 + commandBytes entry.command

namespace RaftStorage

/-- A directory with no file in it. -/
def empty : RaftStorage :=
  { wal := [], metaFile := none, snapshot := none, walFaults := [], metaFaults := [] }

/-- The log file. -/
def walDevice : Device RaftStorage where
  faults s := s.walFaults
  setFaults rest s := { s with walFaults := rest }

/-- The file of the term and the vote, and that of the snapshot. -/
def metaDevice : Device RaftStorage where
  faults s := s.metaFaults
  setFaults rest s := { s with metaFaults := rest }

/-- A method of `RaftStorage`. -/
abbrev Io (α : Type) := Fallible.Io RaftStorage α

/-- `append_wal_log`: open, `write_all`, `sync_all`. -/
def appendWalLog (entry : LogEntry) : Io Unit := do
  fileOp walDevice
  fileOp walDevice
  modify fun s => { s with wal := s.wal ++ [entry] }
  fileOp walDevice

/-- `wal_size_bytes`. -/
def walSizeBytes (s : RaftStorage) : Nat := (s.wal.map entryBytes).sum

/-- `restore_wal_log`. -/
def restoreWalLog (s : RaftStorage) : List LogEntry := s.wal

/-- `save_meta`: write the temporary file, then rename it. -/
def saveMeta (term : Nat) (vote : Option String) : Io Unit := do
  fileOp metaDevice
  fileOp metaDevice
  modify fun s => { s with metaFile := some (term, vote) }

/-- `read_meta`. -/
def readMeta (s : RaftStorage) : Nat × Option String := s.metaFile.getD (0, none)

/-- `save_snapshot`: write the temporary file, then rename it. -/
def saveSnapshot (snapshot : Snapshot) : Io Unit := do
  fileOp metaDevice
  fileOp metaDevice
  modify fun s => { s with snapshot := some snapshot }

/-- `load_snapshot`. -/
def loadSnapshot (s : RaftStorage) : Option Snapshot := s.snapshot

/-- `rewrite_wal_after_snapshot`: create the temporary file, write every
record above `snapshotIndex`, sync and rename. -/
def rewriteWalAfterSnapshot (snapshotIndex : Nat) : Io Nat := do
  let entries := (← getThe RaftStorage).wal.filter (fun e => snapshotIndex < e.index)
  fileOp walDevice
  entries.forM fun _ => fileOp walDevice
  fileOp walDevice
  fileOp walDevice
  modify fun s => { s with wal := entries }
  pure entries.length

/-! ## No failing file operation -/

section Ok

variable {s : RaftStorage}

theorem appendWalLog_ok (h : s.walFaults = []) (entry : LogEntry) :
    appendWalLog entry s = (.ok (), { s with wal := s.wal ++ [entry] }) := by
  rw [appendWalLog, bind_ok (fileOp_ok h), bind_ok (fileOp_ok h), bind_modify,
    fileOp_ok (by exact h)]

theorem rewriteWalAfterSnapshot_ok (h : s.walFaults = []) (snapshotIndex : Nat) :
    rewriteWalAfterSnapshot snapshotIndex s =
      (.ok (s.wal.filter (fun e => snapshotIndex < e.index)).length,
        { s with wal := s.wal.filter (fun e => snapshotIndex < e.index) }) := by
  rw [rewriteWalAfterSnapshot, bind_getThe]
  rw [bind_ok (fileOp_ok h), bind_ok (forM_fileOp_ok h _), bind_ok (fileOp_ok h),
    bind_ok (fileOp_ok h)]
  rfl

end Ok

/-! ## What a file operation leaves alone -/

theorem appendWalLog_keeps {γ : Type} {f : RaftStorage → γ}
    (hwal : ∀ wal s, f { s with wal := wal } = f s)
    (hfaults : ∀ rest s, f { s with walFaults := rest } = f s) (entry : LogEntry) :
    Keeps f (appendWalLog entry) :=
  Keeps.bind (Keeps.fileOp hfaults) fun _ =>
    Keeps.bind (Keeps.fileOp hfaults) fun _ =>
      Keeps.bind (Keeps.modify fun s => hwal (s.wal ++ [entry]) s) fun _ => Keeps.fileOp hfaults

theorem saveMeta_keeps {γ : Type} {f : RaftStorage → γ}
    (hmeta : ∀ m s, f { s with metaFile := m } = f s)
    (hfaults : ∀ rest s, f { s with metaFaults := rest } = f s) (term : Nat)
    (vote : Option String) : Keeps f (saveMeta term vote) :=
  Keeps.bind (Keeps.fileOp hfaults) fun _ =>
    Keeps.bind (Keeps.fileOp hfaults) fun _ => Keeps.modify fun s => hmeta _ s

theorem saveSnapshot_keeps {γ : Type} {f : RaftStorage → γ}
    (hsnap : ∀ snap s, f { s with snapshot := snap } = f s)
    (hfaults : ∀ rest s, f { s with metaFaults := rest } = f s) (snapshot : Snapshot) :
    Keeps f (saveSnapshot snapshot) :=
  Keeps.bind (Keeps.fileOp hfaults) fun _ =>
    Keeps.bind (Keeps.fileOp hfaults) fun _ => Keeps.modify fun s => hsnap _ s

theorem rewriteWalAfterSnapshot_keeps {γ : Type} {f : RaftStorage → γ}
    (hwal : ∀ wal s, f { s with wal := wal } = f s)
    (hfaults : ∀ rest s, f { s with walFaults := rest } = f s) (snapshotIndex : Nat) :
    Keeps f (rewriteWalAfterSnapshot snapshotIndex) :=
  Keeps.bind Keeps.getThe fun _ =>
    Keeps.bind (Keeps.fileOp hfaults) fun _ =>
      Keeps.bind (Keeps.forM (fun _ => Keeps.fileOp hfaults) _) fun _ =>
        Keeps.bind (Keeps.fileOp hfaults) fun _ =>
          Keeps.bind (Keeps.fileOp hfaults) fun _ =>
            Keeps.bind (Keeps.modify fun s => hwal _ s) fun _ => Keeps.pure _

/-- A snapshot is on disk exactly when its save succeeded. -/
theorem saveSnapshot_cases (snapshot : Snapshot) (s : RaftStorage) :
    (∃ s', saveSnapshot snapshot s = (.ok (), s') ∧ s'.snapshot = some snapshot) ∨
      ∃ e s', saveSnapshot snapshot s = (.error e, s') ∧ s'.snapshot = s.snapshot := by
  rcases s with ⟨wal, metaFile, snap, walFaults, _ | ⟨_ | _, _ | ⟨_ | _, faults⟩⟩⟩
  · exact Or.inl ⟨_, rfl, rfl⟩
  · exact Or.inl ⟨_, rfl, rfl⟩
  · exact Or.inl ⟨_, rfl, rfl⟩
  · exact Or.inr ⟨_, _, rfl, rfl⟩
  · exact Or.inr ⟨_, _, rfl, rfl⟩
  · exact Or.inr ⟨_, _, rfl, rfl⟩
  · exact Or.inr ⟨_, _, rfl, rfl⟩

end RaftStorage

end OxideKv
