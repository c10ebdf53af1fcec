import Std.Data.TreeMap.Lemmas
import Mathlib.Data.List.Sort
import Mathlib.Tactic.Common
import OxideKv.Lib.Fallible
import OxideKv.Protocol

/-!
# The LSM store of `state_machine.rs`

The key-value store under the Raft log: a memtable, a write-ahead log for
the memtable, and SSTables on disk.  `BTreeMap` is `Std.TreeMap`, keys are
`String` in the order of their characters, and the two files of an SSTable
are looked up by the table id that their names spell.

A JSON file is modelled by the value it decodes to, so a round trip of
`serde_json` is built in.  The clock enters as an argument, and the
`created_at` stamp of an SSTable, which nothing reads back, is left out.

Every file operation of the source is one call of `fileOp`.  It takes the
next outcome off `Disk.faults`, so a run with injected failures and a run
without any are runs of the same definitions.  An empty list of outcomes
means that every later operation succeeds.
-/

namespace OxideKv

open Std Fallible

/-- One row of the memtable.  `value = none` is a tombstone. -/
structure MemEntry where
  value : Option String
deriving Repr, DecidableEq

/-- An in-flight two-phase commit transaction. -/
structure PendingTx where
  ops : List TxOp
  votes : TreeMap String Vote
  decision : Option TxDecision
  beginUnixMs : Nat

/-- One line of the memtable log. -/
inductive WalOp where
  | put (key value : String)
  | delete (key : String)
deriving Repr, DecidableEq

/-- One row of an SSTable. -/
structure SSTEntry where
  key : String
  value : Option String
  tombstone : Bool
deriving Repr, DecidableEq

/-- The sidecar of an SSTable. -/
structure SSTableMeta where
  id : Nat
  firstKey : String
  lastKey : String
  entryCount : Nat
deriving Repr, DecidableEq

/-- Handle of an SSTable on disk.  The path is the id in the file name. -/
structure SSTableHandle where
  path : Nat
  sstMeta : SSTableMeta
deriving Repr, DecidableEq

/-- The range check of `get`: the table may hold `key`. -/
def SSTableHandle.covers (h : SSTableHandle) (key : String) : Bool :=
  !(decide (key < h.sstMeta.firstKey) || decide (h.sstMeta.lastKey < key))

/-- The files under `data_dir`, and the outcome of each file operation to
come: `true` is a failure. -/
structure Disk where
  wal : List WalOp
  sst : List (Nat × List SSTEntry)
  sidecars : List (Nat × SSTableMeta)
  faults : List Bool
deriving Repr, DecidableEq

/-- A directory that `open` has just created. -/
def Disk.empty : Disk :=
  { wal := [], sst := [], sidecars := [], faults := [] }

/-- `load_sst_entries`. -/
def Disk.loadSstEntries (d : Disk) (path : Nat) : Except IoError (List SSTEntry) :=
  match d.sst.lookup path with
  | some entries => .ok entries
  | none => .error .notFound

/-- `load_sst_meta`. -/
def Disk.loadSstMeta (d : Disk) (path : Nat) : Except IoError SSTableMeta :=
  match d.sidecars.lookup path with
  | some m => .ok m
  | none => .error .notFound

/-- The rename that ends `write_json` replaces a file of the same name. -/
def replaceFile {α : Type} (files : List (Nat × α)) (path : Nat) (content : α) :
    List (Nat × α) :=
  files.filter (fun f => f.1 ≠ path) ++ [(path, content)]

/-- `fs::remove_file`. -/
def removeFile {α : Type} (files : List (Nat × α)) (path : Nat) : List (Nat × α) :=
  files.filter (fun f => f.1 ≠ path)

structure StateMachine where
  memtableSizeThreshold : Nat
  memtable : TreeMap String MemEntry
  memtableBytes : Nat
  /-- Age order: the head is the oldest table. -/
  sstables : List SSTableHandle
  nextSstId : Nat
  pendingTxs : TreeMap String PendingTx
  disk : Disk

/-- `estimate_entry`: the bytes a key adds to the memtable. -/
def estimateEntry (key : String) : Nat := key.utf8ByteSize + 40

namespace StateMachine

/-- The files under `data_dir`. -/
def dataDir : Device StateMachine where
  faults sm := sm.disk.faults
  setFaults rest sm := { sm with disk := { sm.disk with faults := rest } }

/-- A method of `StateMachine` that returns `io::Result`. -/
abbrev Io (α : Type) := Fallible.Io StateMachine α

/-- Replace the disk. -/
def onDisk (f : Disk → Disk) : Io Unit :=
  modify fun sm => { sm with disk := f sm.disk }

/-! ## Opening the directory -/

/-- One turn of the replay loop of `open`, on the memtable and its byte
count. -/
def replayWalOp : TreeMap String MemEntry × Nat → WalOp → TreeMap String MemEntry × Nat
  | (memtable, bytes), .put key value =>
      (memtable.insert key ⟨some value⟩,
        bytes - estimateEntry key + (estimateEntry key + value.utf8ByteSize))
  | (memtable, bytes), .delete key =>
      (memtable.insert key ⟨none⟩, bytes - estimateEntry key + estimateEntry key)

/-- The replay loop of `open`. -/
def replayWal (wal : List WalOp) : TreeMap String MemEntry × Nat :=
  wal.foldl replayWalOp (∅, 0)

/-- The discovery loop of `open`: every `.sst` file needs its sidecar. -/
def discover (d : Disk) : Except IoError (List SSTableHandle) :=
  d.sst.mapM fun f => do
    let m ← d.loadSstMeta f.1
    pure { path := f.1, sstMeta := m }

/-- `StateMachine::open` on the files that `d` holds.  The tables are sorted
by the id in their sidecar, so the order in which `read_dir` lists them does
not show. -/
def openStore (memtableSizeThreshold : Nat) (d : Disk) : Except IoError StateMachine := do
  let found ← discover d
  let (memtable, bytes) := replayWal d.wal
  pure
    { memtableSizeThreshold := memtableSizeThreshold
      memtable := memtable
      memtableBytes := bytes
      sstables := found.insertionSort (fun a b => a.sstMeta.id ≤ b.sstMeta.id)
      nextSstId := d.sst.foldl (fun next f => max next (f.1 + 1)) 0
      pendingTxs := ∅
      disk := d }

/-! ## Writing -/

/-- `write_json` on `path`: write the temporary file, then rename it. -/
def writeJson (rename : Disk → Disk) : Io Unit := do
  fileOp dataDir
  fileOp dataDir
  onDisk rename

/-- Truncation of the memtable log: `set_len`, `seek`, `sync_all`. -/
def truncateWal : Io Unit := do
  fileOp dataDir
  onDisk fun d => { d with wal := [] }
  fileOp dataDir
  fileOp dataDir

/-- `append_wal`: `writeln!`, then `sync_all`. -/
def appendWal (op : WalOp) : Io Unit := do
  fileOp dataDir
  onDisk fun d => { d with wal := d.wal ++ [op] }
  fileOp dataDir

/-- The rows a memtable turns into. -/
def memtableEntries (memtable : TreeMap String MemEntry) : List SSTEntry :=
  memtable.toList.map fun p =>
    { key := p.1, value := p.2.value, tombstone := p.2.value.isNone }

/-- The sidecar of a table with the given rows. -/
def sidecarOf (id : Nat) (entries : List SSTEntry) : SSTableMeta :=
  { id := id
    firstKey := (entries.head?.map SSTEntry.key).getD ""
    lastKey := (entries.getLast?.map SSTEntry.key).getD ""
    entryCount := entries.length }

/-- Write a new table and its sidecar under the next id.  `flush` and
`compact` share these lines. -/
def writeTable (entries : List SSTEntry) : Io SSTableHandle := do
  let id := (← getThe StateMachine).nextSstId
  modify fun sm => { sm with nextSstId := id + 1 }
  writeJson fun d => { d with sst := replaceFile d.sst id entries }
  let m := sidecarOf id entries
  writeJson fun d => { d with sidecars := replaceFile d.sidecars id m }
  pure { path := id, sstMeta := m }

/-- `flush`: the memtable becomes a new SSTable.  No-op when it is empty. -/
def flush : Io Unit := do
  let sm ← getThe StateMachine
  if sm.memtable.isEmpty then
    return
  let handle ← writeTable (memtableEntries sm.memtable)
  modify fun sm => { sm with sstables := sm.sstables ++ [handle] }
  modify fun sm => { sm with memtable := ∅, memtableBytes := 0 }
  truncateWal

/-- The accounting and the insert of `set` and `delete`.  The key is counted
once, and the bytes of a value that is replaced are taken off. -/
def insertRow (key : String) (value : Option String) (sm : StateMachine) : StateMachine :=
  let bytes :=
    match sm.memtable[key]? with
    | some prev => sm.memtableBytes - (prev.value.map String.utf8ByteSize).getD 0
    | none => sm.memtableBytes + estimateEntry key
  { sm with
    memtableBytes := bytes + (value.map String.utf8ByteSize).getD 0
    memtable := sm.memtable.insert key ⟨value⟩ }

/-- The lines `set` and `delete` share: log the operation, insert the row,
and flush above the threshold. -/
def write (key : String) (value : Option String) (op : WalOp) : Io Unit := do
  appendWal op
  modify (insertRow key value)
  let sm ← getThe StateMachine
  if sm.memtableSizeThreshold ≤ sm.memtableBytes then
    flush

/-- `set`. -/
def set (key value : String) : Io Unit := write key (some value) (.put key value)

/-- `delete`. -/
def delete (key : String) : Io Unit := write key none (.delete key)

/-! ## Reading -/

/-- The loop of `get` over the rows of one table.  `some r` is a `return r`,
`none` runs off the end of the table. -/
def scanEntries (key : String) : List SSTEntry → Option (Option String)
  | [] => none
  | entry :: rest =>
      match compare entry.key key with
      | .eq => some (if entry.tombstone then none else entry.value)
      | .gt => some none
      | .lt => scanEntries key rest

/-- The loop of `get` over the tables, newest first. -/
def getFromTables (d : Disk) (key : String) : List SSTableHandle → Option String
  | [] => none
  | sst :: older =>
      if sst.covers key then
        match d.loadSstEntries sst.path with
        | .error _ => getFromTables d key older
        | .ok entries =>
            match scanEntries key entries with
            | some result => result
            | none => getFromTables d key older
      else getFromTables d key older

/-- `get`. -/
def get (sm : StateMachine) (key : String) : Option String :=
  match sm.memtable[key]? with
  | some entry => entry.value
  | none => getFromTables sm.disk key sm.sstables.reverse

/-- One row of a table, laid over the flattened map. -/
def overlayEntry (result : TreeMap String String) (entry : SSTEntry) :
    TreeMap String String :=
  if entry.tombstone then result.erase entry.key
  else
    match entry.value with
    | some value => result.insert entry.key value
    | none => result

/-- `snapshot_data`: the tables oldest to newest, then the memtable. -/
def snapshotData (sm : StateMachine) : Except IoError (TreeMap String String) := do
  let flat ← sm.sstables.foldlM
    (fun result sst => do
      let entries ← sm.disk.loadSstEntries sst.path
      pure (entries.foldl overlayEntry result))
    (∅ : TreeMap String String)
  pure (sm.memtable.toList.foldl
    (fun result p =>
      match p.2.value with
      | some value => result.insert p.1 value
      | none => result.erase p.1)
    flat)

/-! ## Compaction -/

/-- The merge loop of `compact`: a newer row replaces an older one. -/
def mergeTables (d : Disk) (tables : List SSTableHandle) :
    Except IoError (TreeMap String SSTEntry) :=
  tables.foldlM
    (fun merged sst => do
      let entries ← d.loadSstEntries sst.path
      pure (entries.foldl (fun m entry => m.insert entry.key entry) merged))
    (∅ : TreeMap String SSTEntry)

/-- Removal of one old table, both files, with the results dropped. -/
def removeTable (path : Nat) : Io Unit := do
  ignoreErr do
    fileOp dataDir
    onDisk fun d => { d with sst := removeFile d.sst path }
  ignoreErr do
    fileOp dataDir
    onDisk fun d => { d with sidecars := removeFile d.sidecars path }

/-- The rows that survive compaction: the merged rows in key order, without
the tombstones. -/
def compactedEntries (merged : TreeMap String SSTEntry) : List SSTEntry :=
  (merged.toList.map Prod.snd).filter (fun e => !e.tombstone)

/-- `compact`: merge every table into one.  No-op below two tables. -/
def compact : Io Unit := do
  let sm ← getThe StateMachine
  if sm.sstables.length < 2 then
    return
  let merged ← pureResult (mergeTables sm.disk sm.sstables)
  let handle ← writeTable (compactedEntries merged)
  let oldPaths := sm.sstables.map SSTableHandle.path
  modify fun sm => { sm with sstables := [handle] }
  oldPaths.forM removeTable

/-! ## Snapshots -/

/-- `clear_for_snapshot`: wipe the store. -/
def clearForSnapshot : Io Unit := do
  modify fun sm => { sm with memtable := ∅, memtableBytes := 0 }
  truncateWal
  let sm ← getThe StateMachine
  (sm.sstables.map SSTableHandle.path).forM removeTable
  modify fun sm => { sm with sstables := [], nextSstId := 0, pendingTxs := ∅ }

/-- One turn of the loop of `install_snapshot`. -/
def installRow (sm : StateMachine) (p : String × String) : StateMachine :=
  { sm with
    memtableBytes := sm.memtableBytes + estimateEntry p.1 + p.2.utf8ByteSize
    memtable := sm.memtable.insert p.1 ⟨some p.2⟩ }

/-- `install_snapshot`: wipe the store and load `data` into the memtable,
past the memtable log. -/
def installSnapshot (data : TreeMap String String) : Io Unit := do
  clearForSnapshot
  modify fun sm => { sm with memtableBytes := 0 }
  modify fun sm => data.toList.foldl installRow sm

/-! ## Two-phase commit -/

/-- `begin_tx_at`: stage a transaction.  A second `BeginTx` under the same
id replaces the first. -/
def beginTxAt (txId : String) (ops : List TxOp) (beginUnixMs : Nat) : Io Unit :=
  modify fun sm =>
    { sm with
      pendingTxs := sm.pendingTxs.insert txId
        { ops := ops, votes := ∅, decision := none, beginUnixMs := beginUnixMs } }

/-- `begin_tx` at wall-clock time `nowUnixMs`. -/
def beginTx (txId : String) (ops : List TxOp) (nowUnixMs : Nat) : Io Unit :=
  beginTxAt txId ops nowUnixMs

/-- `record_vote`.  An unknown `txId` is ignored. -/
def recordVote (txId voter : String) (vote : Vote) : Io Unit :=
  modify fun sm =>
    match sm.pendingTxs[txId]? with
    | some tx =>
        { sm with
          pendingTxs := sm.pendingTxs.insert txId
            { tx with votes := tx.votes.insert voter vote } }
    | none => sm

/-- One operation of a committed transaction; the result is dropped. -/
def applyTxOp : TxOp → Io Unit
  | .put key value => ignoreErr (set key value)
  | .delete key => ignoreErr (delete key)

/-- `decide_tx`. -/
def decideTx (txId : String) (decision : TxDecision) : Io Unit := do
  let sm ← getThe StateMachine
  match sm.pendingTxs[txId]? with
  | none => pure ()
  | some tx =>
      modify fun sm => { sm with pendingTxs := sm.pendingTxs.erase txId }
      match decision with
      | .commit => tx.ops.forM applyTxOp
      | .abort => pure ()

/-- `is_tx_pending`. -/
def isTxPending (sm : StateMachine) (txId : String) : Bool :=
  sm.pendingTxs.contains txId

end StateMachine

end OxideKv
