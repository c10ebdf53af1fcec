import Mathlib.Data.String.Basic
import OxideKv.Lib.LastWrite
import OxideKv.StateMachine.Model

/-!
# What the store holds

The logical content of a `StateMachine` is a last-write-wins trace: the rows
of the SSTables from the oldest to the newest, then the rows of the memtable.
`contents` reads a key off that trace.

`Layout` is the invariant of a store whose file operations all succeed: the
files on disk are the tables of the handle list, ids increase, and rows are in
key order.  `Durable` says that the memtable is the replay of its log.  It is
apart from `Layout` because `install_snapshot` fills the memtable past the
log.  `Writes sm sm' ws` says that a method took `sm` to `sm'` and that the
effect on the contents is the trace `ws`.  There is one such lemma for each
method, and none of them mentions a table: flushing and compacting write
nothing.
-/

namespace OxideKv

open Std Fallible LastWrite

/-- What a row leaves under its key. -/
def SSTEntry.shown (e : SSTEntry) : Option String :=
  if e.tombstone then none else e.value

/-- The rows of a table as a trace. -/
def rowsOf (entries : List SSTEntry) : List (String × Option String) :=
  entries.map fun e => (e.key, e.shown)

namespace StateMachine

/-! ## Running a method with no failing file operation -/

section Run

variable {sm : StateMachine}

theorem truncateWal_ok (h : sm.disk.faults = []) :
    truncateWal sm = (.ok (), { sm with disk := { sm.disk with wal := [] } }) := by
  rw [truncateWal, bind_ok (fileOp_ok h), onDisk, bind_modify,
    bind_ok (fileOp_ok (by exact h)), fileOp_ok (by exact h)]

theorem appendWal_ok (h : sm.disk.faults = []) (op : WalOp) :
    appendWal op sm =
      (.ok (), { sm with disk := { sm.disk with wal := sm.disk.wal ++ [op] } }) := by
  rw [appendWal, bind_ok (fileOp_ok h), onDisk, bind_modify, fileOp_ok (by exact h)]

theorem writeJson_ok (h : sm.disk.faults = []) (rename : Disk → Disk) :
    writeJson rename sm = (.ok (), { sm with disk := rename sm.disk }) := by
  rw [writeJson, bind_ok (fileOp_ok h), bind_ok (fileOp_ok h)]
  rfl

/-- The disk after a table and its sidecar have been written under `id`. -/
def withTable (d : Disk) (id : Nat) (entries : List SSTEntry) : Disk :=
  { d with
    sst := replaceFile d.sst id entries
    sidecars := replaceFile d.sidecars id (sidecarOf id entries) }

theorem writeTable_ok (h : sm.disk.faults = []) (entries : List SSTEntry) :
    writeTable entries sm =
      (.ok { path := sm.nextSstId, sstMeta := sidecarOf sm.nextSstId entries },
        { sm with
          nextSstId := sm.nextSstId + 1
          disk := withTable sm.disk sm.nextSstId entries }) := by
  rw [writeTable, bind_getThe]
  dsimp only
  rw [bind_modify, bind_ok (writeJson_ok (by exact h) _),
    bind_ok (writeJson_ok (by exact h) _)]
  rfl

theorem removeTable_ok (h : sm.disk.faults = []) (path : Nat) :
    removeTable path sm =
      (.ok (), { sm with
        disk := { sm.disk with
          sst := removeFile sm.disk.sst path
          sidecars := removeFile sm.disk.sidecars path } }) := by
  have hsst :
      (do fileOp dataDir; onDisk fun d => { d with sst := removeFile d.sst path } : Io Unit) sm =
      (.ok (), { sm with disk := { sm.disk with sst := removeFile sm.disk.sst path } }) := by
    rw [bind_ok (fileOp_ok h)]
    rfl
  rw [removeTable, bind_ok (ignoreErr_ok hsst)]
  refine @ignoreErr_ok _ _ _ _ (.ok ()) ?_
  rw [bind_ok (fileOp_ok (by exact h))]
  rfl

end Run

@[simp] theorem rowsOf_cons (e : SSTEntry) (entries : List SSTEntry) :
    rowsOf (e :: entries) = (e.key, e.shown) :: rowsOf entries := rfl

@[simp] theorem rowsOf_append (xs ys : List SSTEntry) :
    rowsOf (xs ++ ys) = rowsOf xs ++ rowsOf ys := List.map_append

/-! ## The invariant -/

/-- The trace of the tables, oldest first. -/
def tableTrace (d : Disk) : List (String × Option String) :=
  d.sst.flatMap fun f => rowsOf f.2

/-- The trace of the whole store. -/
def trace (sm : StateMachine) : List (String × Option String) :=
  tableTrace sm.disk ++ rowsOf (memtableEntries sm.memtable)

/-- The value the store holds under `key`. -/
def contents (sm : StateMachine) (key : String) : Option String :=
  lastWrite sm.trace key

/-- The rows of a table are in key order, and exactly the tombstones have no
value. -/
structure RowsWf (entries : List SSTEntry) : Prop where
  sorted : entries.Pairwise (fun a b => a.key < b.key)
  tombstone : ∀ e ∈ entries, e.tombstone = e.value.isNone

/-- A store that no file operation has failed on. -/
structure Layout (sm : StateMachine) : Prop where
  faults : sm.disk.faults = []
  handles : sm.sstables =
    sm.disk.sst.map fun f => { path := f.1, sstMeta := sidecarOf f.1 f.2 }
  sidecars : sm.disk.sidecars = sm.disk.sst.map fun f => (f.1, sidecarOf f.1 f.2)
  ids : (sm.disk.sst.map Prod.fst).Pairwise (· < ·)
  next : ∀ f ∈ sm.disk.sst, f.1 < sm.nextSstId
  rows : ∀ f ∈ sm.disk.sst, RowsWf f.2

/-- The memtable is the replay of its log. -/
def Durable (sm : StateMachine) : Prop := (replayWal sm.disk.wal).1 = sm.memtable

/-- `sm` became `sm'`, and what was written on the way is `ws`. -/
structure Writes (sm sm' : StateMachine) (ws : List (String × Option String)) : Prop where
  layout : Layout sm'
  durable : Durable sm → Durable sm'
  contents : ∀ key, sm'.contents key = lastWrite (sm.trace ++ ws) key

theorem Writes.refl {sm : StateMachine} (h : Layout sm) : Writes sm sm [] :=
  ⟨h, id, fun key => by rw [List.append_nil, StateMachine.contents]⟩

theorem Writes.trans {sm₁ sm₂ sm₃ : StateMachine} {ws ws' : List (String × Option String)}
    (h : Writes sm₁ sm₂ ws) (h' : Writes sm₂ sm₃ ws') : Writes sm₁ sm₃ (ws ++ ws') := by
  refine ⟨h'.layout, fun hd => h'.durable (h.durable hd), fun key => ?_⟩
  rw [h'.contents key, ← List.append_assoc]
  exact lastWrite_append_congr h.contents ws' key

/-- The overlay reading of `Writes`. -/
theorem Writes.apply {sm sm' : StateMachine} {ws : List (String × Option String)}
    (h : Writes sm sm' ws) (key : String) :
    sm'.contents key = (record ws key).getD (sm.contents key) := by
  rw [h.contents key, lastWrite_append, StateMachine.contents]

theorem Writes.same {sm sm' : StateMachine} (h : Writes sm sm' []) (key : String) :
    sm'.contents key = sm.contents key := h.apply key

/-! ## The memtable as a trace -/

theorem rowsOf_memtableEntries (memtable : TreeMap String MemEntry) :
    rowsOf (memtableEntries memtable) = memtable.toList.map fun p => (p.1, p.2.value) := by
  rw [rowsOf, memtableEntries, List.map_map]
  apply List.map_congr_left
  intro p _
  cases hv : p.2.value <;> simp [SSTEntry.shown, hv]

theorem sorted_keys_toList {V : Type} (m : TreeMap String V) :
    m.toList.Pairwise (fun a b => a.1 < b.1) :=
  m.ordered_keys_toList.imp fun h => compare_lt_iff_lt.mp h

theorem memtableEntries_wf (memtable : TreeMap String MemEntry) :
    RowsWf (memtableEntries memtable) where
  sorted := by
    rw [memtableEntries, List.pairwise_map]
    exact sorted_keys_toList memtable
  tombstone := by
    intro e he
    obtain ⟨p, _, rfl⟩ := List.mem_map.mp he
    rfl

/-- Sorted rows write no key twice. -/
theorem RowsWf.nodup {entries : List SSTEntry} (h : RowsWf entries) :
    ((rowsOf entries).map Prod.fst).Nodup := by
  rw [rowsOf, List.map_map]
  exact List.pairwise_map.mpr (h.sorted.imp fun hlt => hlt.ne)

/-- The rows of a map, read as a trace, record what the map holds. -/
theorem record_toList {V : Type} (m : TreeMap String V) (g : V → Option String)
    (key : String) :
    record (m.toList.map fun p => (p.1, g p.2)) key = m[key]?.map g := by
  have hnodup : ((m.toList.map fun p => (p.1, g p.2)).map Prod.fst).Nodup := by
    rw [List.map_map]
    exact List.pairwise_map.mpr ((sorted_keys_toList m).imp fun hlt => hlt.ne)
  cases hm : m[key]? with
  | none =>
    rw [Option.map_none, record_eq_none_iff]
    intro w hw heq
    obtain ⟨p, hp, rfl⟩ := List.mem_map.mp hw
    have hp' := TreeMap.mem_toList_iff_getElem?_eq_some.mp hp
    rw [show p.1 = key from heq, hm] at hp'
    simp at hp'
  | some v =>
    rw [Option.map_some, record_eq_some_iff hnodup]
    exact List.mem_map.mpr ⟨(key, v), TreeMap.mem_toList_iff_getElem?_eq_some.mpr hm, rfl⟩

/-- The memtable row of a key is what the memtable trace records. -/
theorem record_memtable (memtable : TreeMap String MemEntry) (key : String) :
    record (rowsOf (memtableEntries memtable)) key = memtable[key]?.map MemEntry.value := by
  rw [rowsOf_memtableEntries, record_toList]

/-- An insert into the memtable is one more write. -/
theorem record_memtable_insert (memtable : TreeMap String MemEntry) (key : String)
    (value : Option String) (k : String) :
    record (rowsOf (memtableEntries (memtable.insert key ⟨value⟩))) k =
      record (rowsOf (memtableEntries memtable) ++ [(key, value)]) k := by
  rw [record_append, record_memtable, record_memtable, record_singleton,
    TreeMap.getElem?_insert]
  by_cases h : key = k <;> simp [h]

@[simp] theorem rowsOf_memtableEntries_empty :
    rowsOf (memtableEntries (∅ : TreeMap String MemEntry)) = [] := rfl

/-! ## Files by path -/

section Files

variable {α : Type} {files : List (Nat × α)}

theorem replaceFile_fresh {path : Nat} (h : ∀ f ∈ files, f.1 < path) (content : α) :
    replaceFile files path content = files ++ [(path, content)] := by
  rw [replaceFile, List.filter_eq_self.mpr]
  intro f hf
  have := h f hf
  exact decide_eq_true (by omega)

theorem lookup_of_mem (hnodup : (files.map Prod.fst).Nodup) {path : Nat} {content : α}
    (hmem : (path, content) ∈ files) : files.lookup path = some content := by
  induction files with
  | nil => simp at hmem
  | cons f files ih =>
    rw [List.map_cons, List.nodup_cons] at hnodup
    rcases List.mem_cons.mp hmem with rfl | hmem
    · exact List.lookup_cons_self
    · have hne : path ≠ f.1 := by
        intro heq
        exact hnodup.1 (heq ▸ List.mem_map.mpr ⟨_, hmem, rfl⟩)
      rw [List.lookup_cons, beq_false_of_ne hne]
      exact ih hnodup.2 hmem

/-- The loop that removes old tables. -/
theorem forM_removeTable_ok (paths : List Nat) :
    ∀ {sm : StateMachine}, sm.disk.faults = [] →
      (paths.forM removeTable) sm =
        (.ok (), { sm with
          disk := { sm.disk with
            sst := sm.disk.sst.filter (fun f => f.1 ∉ paths)
            sidecars := sm.disk.sidecars.filter (fun f => f.1 ∉ paths) } }) := by
  induction paths with
  | nil =>
    intro sm _
    simp [List.forM]
    rfl
  | cons path paths ih =>
    intro sm h
    rw [List.forM, bind_ok (removeTable_ok h path), ih (by exact h)]
    simp only [removeFile, List.filter_filter, List.mem_cons, not_or]
    simp only [ne_eq, Bool.decide_and, Bool.and_comm]

end Files

/-- What a reader of the tables relies on: the handles name the files in their
order, the ids increase and the rows are in key order. -/
structure Readable (sm : StateMachine) : Prop where
  paths : sm.sstables.map SSTableHandle.path = sm.disk.sst.map Prod.fst
  ids : (sm.disk.sst.map Prod.fst).Pairwise (· < ·)
  rows : ∀ f ∈ sm.disk.sst, RowsWf f.2

theorem Layout.paths {sm : StateMachine} (h : Layout sm) :
    sm.sstables.map SSTableHandle.path = sm.disk.sst.map Prod.fst := by
  rw [h.handles, List.map_map]
  rfl

theorem Layout.readable {sm : StateMachine} (h : Layout sm) : Readable sm :=
  ⟨h.paths, h.ids, h.rows⟩

theorem Readable.nodupIds {sm : StateMachine} (h : Readable sm) :
    (sm.disk.sst.map Prod.fst).Nodup :=
  h.ids.imp fun hlt => by omega

/-- Every handle finds its rows. -/
theorem Readable.loadSstEntries {sm : StateMachine} (h : Readable sm) {f : Nat × List SSTEntry}
    (hf : f ∈ sm.disk.sst) : sm.disk.loadSstEntries f.1 = .ok f.2 := by
  rw [Disk.loadSstEntries, @lookup_of_mem _ _ h.nodupIds f.1 f.2 hf]

/-! ## Flush -/

/-- A store with one more table, made of rows in key order. -/
theorem Layout.addTable {sm : StateMachine} (h : Layout sm) {entries : List SSTEntry}
    (hrows : RowsWf entries) :
    withTable sm.disk sm.nextSstId entries =
        { sm.disk with
          sst := sm.disk.sst ++ [(sm.nextSstId, entries)]
          sidecars := sm.disk.sidecars ++ [(sm.nextSstId, sidecarOf sm.nextSstId entries)] } ∧
      ((sm.disk.sst ++ [(sm.nextSstId, entries)]).map Prod.fst).Pairwise (· < ·) ∧
      (∀ f ∈ sm.disk.sst ++ [(sm.nextSstId, entries)], f.1 < sm.nextSstId + 1) ∧
      ∀ f ∈ sm.disk.sst ++ [(sm.nextSstId, entries)], RowsWf f.2 := by
  have hside : ∀ f ∈ sm.disk.sidecars, f.1 < sm.nextSstId := by
    rw [h.sidecars]
    intro f hf
    obtain ⟨g, hg, rfl⟩ := List.mem_map.mp hf
    exact h.next g hg
  refine ⟨?_, ?_, ?_, ?_⟩
  · rw [withTable, replaceFile_fresh h.next, replaceFile_fresh hside]
  · rw [List.map_append, List.pairwise_append]
    refine ⟨h.ids, by simp, ?_⟩
    intro a ha b hb
    obtain ⟨f, hf, rfl⟩ := List.mem_map.mp ha
    have := h.next f hf
    simp only [List.map_cons, List.map_nil, List.mem_singleton] at hb
    omega
  · intro f hf
    rcases List.mem_append.mp hf with hf | hf
    · have := h.next f hf
      omega
    · rw [List.mem_singleton.mp hf]
      exact Nat.lt_succ_self _
  · intro f hf
    rcases List.mem_append.mp hf with hf | hf
    · exact h.rows f hf
    · rw [List.mem_singleton.mp hf]
      exact hrows

/-- `flush` writes nothing. -/
theorem flush_ok {sm : StateMachine} (h : Layout sm) :
    ∃ sm', flush sm = (.ok (), sm') ∧ Writes sm sm' [] ∧
      sm'.pendingTxs = sm.pendingTxs := by
  rw [flush, bind_getThe]
  by_cases hempty : sm.memtable.isEmpty = true
  · rw [if_pos hempty]
    exact ⟨sm, rfl, Writes.refl h, rfl⟩
  · rw [if_neg hempty, bind_ok (writeTable_ok h.faults _), bind_modify, bind_modify,
      truncateWal_ok (by exact h.faults)]
    obtain ⟨hdisk, hids, hnext, hrows⟩ := h.addTable (memtableEntries_wf sm.memtable)
    refine ⟨_, rfl, ⟨?_, fun _ => rfl, ?_⟩, rfl⟩
    · simp only [hdisk]
      refine ⟨h.faults, ?_, ?_, hids, hnext, hrows⟩
      · rw [List.map_append, ← h.handles]
        rfl
      · rw [List.map_append, ← h.sidecars]
        rfl
    · intro key
      simp only [StateMachine.contents, trace, hdisk, tableTrace, List.flatMap_append,
        List.flatMap_cons, List.flatMap_nil, rowsOf_memtableEntries_empty, List.append_nil]

/-! ## Single writes -/

theorem replayWal_append (wal : List WalOp) (op : WalOp) :
    replayWal (wal ++ [op]) = replayWalOp (replayWal wal) op := by
  rw [replayWal, List.foldl_append]
  rfl

/-- The memtable log line of a write replays to the row of that write. -/
def WalOp.logs (op : WalOp) (key : String) (value : Option String) : Prop :=
  ∀ acc, (replayWalOp acc op).1 = acc.1.insert key ⟨value⟩

/-- The row in the log and in the memtable, before any flush. -/
theorem logged_writes {sm : StateMachine} (h : Layout sm) {key : String} {value : Option String}
    {op : WalOp} (hop : WalOp.logs op key value) :
    Writes sm (insertRow key value { sm with disk := { sm.disk with wal := sm.disk.wal ++ [op] } })
      [(key, value)] := by
  refine ⟨⟨h.faults, h.handles, h.sidecars, h.ids, h.next, h.rows⟩, fun hd => ?_, fun k => ?_⟩
  · show (replayWal (sm.disk.wal ++ [op])).1 = sm.memtable.insert key ⟨value⟩
    rw [replayWal_append, hop, hd]
  · apply lastWrite_congr
    show record (tableTrace sm.disk ++
        rowsOf (memtableEntries (sm.memtable.insert key ⟨value⟩))) k = _
    rw [trace, List.append_assoc, record_append, record_memtable_insert, ← record_append]

theorem write_ok {sm : StateMachine} (h : Layout sm) {key : String} {value : Option String}
    {op : WalOp} (hop : WalOp.logs op key value) :
    ∃ sm', write key value op sm = (.ok (), sm') ∧ Writes sm sm' [(key, value)] ∧
      sm'.pendingTxs = sm.pendingTxs := by
  rw [write, bind_ok (appendWal_ok h.faults op), bind_modify, bind_getThe]
  have hwrites := logged_writes h hop
  split
  · obtain ⟨sm₂, hflush, hw, hp⟩ := flush_ok hwrites.layout
    exact ⟨sm₂, hflush, hwrites.trans hw, hp⟩
  · exact ⟨_, rfl, hwrites, rfl⟩

theorem set_ok {sm : StateMachine} (h : Layout sm) (key value : String) :
    ∃ sm', set key value sm = (.ok (), sm') ∧ Writes sm sm' [(key, some value)] ∧
      sm'.pendingTxs = sm.pendingTxs :=
  write_ok h fun _ => rfl

theorem delete_ok {sm : StateMachine} (h : Layout sm) (key : String) :
    ∃ sm', delete key sm = (.ok (), sm') ∧ Writes sm sm' [(key, none)] ∧
      sm'.pendingTxs = sm.pendingTxs :=
  write_ok h fun _ => rfl

end StateMachine

end OxideKv
