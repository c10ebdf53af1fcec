import OxideKv.StateMachine.CrashSafety

/-!
# The store when file operations fail

`Layout` describes a store that no file operation has failed on.  After a
failure the directory can hold more than the store knows: the `.sst` file of a
flush whose sidecar could not be written stays behind under an id that is not
used again.  A running store does not see it, since it reads the tables through
its handles.  `Live` and `shown` are the invariant and the contents in terms of
the handles, and they survive every failure of `flush` and of `append_wal`.

* `flush` fails before it has written the table, and the memtable stays, or
  after, and the table has taken its place.  What the store shows is the same
  (`flush_view`).
* `set` and `delete` change what the store shows exactly when `append_wal`
  succeeds (`writeRow_view`), whatever becomes of their flush.
-/

namespace OxideKv

open Std Fallible LastWrite

namespace StateMachine

/-! ## What a running store shows -/

/-- The rows of the tables that the store has handles of, oldest first. -/
def liveRows (sm : StateMachine) : List SSTEntry :=
  sm.sstables.flatMap fun h => h.rows sm.disk

/-- The writes that the store remembers. -/
def liveTrace (sm : StateMachine) : List (String × Option String) :=
  rowsOf sm.liveRows ++ rowsOf (memtableEntries sm.memtable)

/-- The value that the store shows under `key`. -/
def shown (sm : StateMachine) (key : String) : Option String := lastWrite sm.liveTrace key

/-- Every handle loads its rows, and the next id is above all of them. -/
structure Live (sm : StateMachine) : Prop where
  load : ∀ h ∈ sm.sstables, sm.disk.loadSstEntries h.path = .ok (h.rows sm.disk)
  rows : ∀ h ∈ sm.sstables, RowsWf (h.rows sm.disk)
  next : ∀ h ∈ sm.sstables, h.path < sm.nextSstId

/-- `sm'` reads the same files through the same handles, and has the same
memtable. -/
structure SameView (sm sm' : StateMachine) : Prop where
  sstables : sm'.sstables = sm.sstables
  memtable : sm'.memtable = sm.memtable
  pendingTxs : sm'.pendingTxs = sm.pendingTxs
  next : sm.nextSstId ≤ sm'.nextSstId
  files : ∀ h ∈ sm.sstables, sm'.disk.sst.lookup h.path = sm.disk.sst.lookup h.path

theorem rows_congr {d d' : Disk} {h : SSTableHandle}
    (hfile : d'.sst.lookup h.path = d.sst.lookup h.path) :
    d'.loadSstEntries h.path = d.loadSstEntries h.path ∧ h.rows d' = h.rows d := by
  have hload : d'.loadSstEntries h.path = d.loadSstEntries h.path := by
    rw [Disk.loadSstEntries, hfile, Disk.loadSstEntries]
  exact ⟨hload, by rw [SSTableHandle.rows, hload, SSTableHandle.rows]⟩

namespace SameView

variable {sm sm₁ sm₂ : StateMachine}

theorem refl (sm : StateMachine) : SameView sm sm :=
  ⟨rfl, rfl, rfl, Nat.le_refl _, fun _ _ => rfl⟩

theorem liveRows (h : SameView sm sm₁) : sm₁.liveRows = sm.liveRows := by
  unfold StateMachine.liveRows
  rw [h.sstables]
  apply List.flatMap_congr
  intro x hx
  exact (rows_congr (h.files x hx)).2

theorem liveTrace (h : SameView sm sm₁) : sm₁.liveTrace = sm.liveTrace := by
  rw [StateMachine.liveTrace, h.liveRows, h.memtable, StateMachine.liveTrace]

theorem live (h : SameView sm sm₁) (hlive : Live sm) : Live sm₁ := by
  refine ⟨?_, ?_, ?_⟩ <;> rw [h.sstables] <;> intro x hx
  · rw [(rows_congr (h.files x hx)).1, (rows_congr (h.files x hx)).2]
    exact hlive.load x hx
  · rw [(rows_congr (h.files x hx)).2]
    exact hlive.rows x hx
  · exact (hlive.next x hx).trans_le h.next

end SameView

/-- `snapshot_data` reads what the store shows. -/
theorem Live.snapshotData {sm : StateMachine} (h : Live sm) :
    ∃ data, snapshotData sm = .ok data ∧ ∀ key, data[key]? = sm.shown key := by
  have hload : ∀ (handles : List SSTableHandle) (flat : TreeMap String String),
      (∀ x ∈ handles, x ∈ sm.sstables) →
      handles.foldlM
          (fun result sst => do
            let entries ← sm.disk.loadSstEntries sst.path
            pure (entries.foldl overlayEntry result)) flat =
        (.ok ((handles.flatMap fun x => x.rows sm.disk).foldl overlayEntry flat) :
          Except IoError (TreeMap String String)) := by
    intro handles
    induction handles with
    | nil => exact fun _ _ => rfl
    | cons x handles ih =>
      intro flat hmem
      rw [List.foldlM_cons, h.load x (hmem x List.mem_cons_self), List.flatMap_cons,
        List.foldl_append]
      exact ih _ fun y hy => hmem y (List.mem_cons_of_mem _ hy)
  have htomb : ∀ e ∈ sm.liveRows ++ memtableEntries sm.memtable,
      e.tombstone = e.value.isNone := by
    intro e he
    rcases List.mem_append.mp he with he | he
    · obtain ⟨x, hx, he⟩ := List.mem_flatMap.mp he
      exact (h.rows x hx).tombstone e he
    · exact (memtableEntries_wf sm.memtable).tombstone e he
  refine ⟨(sm.liveRows ++ memtableEntries sm.memtable).foldl overlayEntry ∅, ?_, fun key => ?_⟩
  · rw [StateMachine.snapshotData, hload sm.sstables ∅ fun _ hx => hx, List.foldl_append,
      ← foldl_memtable_overlay]
    rfl
  · rw [getElem?_foldl_overlayEntry _ _ _ htomb, rowsOf_append, TreeMap.getElem?_emptyc, shown,
      lastWrite, liveTrace]
    cases record (rowsOf sm.liveRows ++ rowsOf (memtableEntries sm.memtable)) key <;> rfl

/-! ## File operations that may fail -/

/-- The store with other outcomes to come. -/
def withFaults (faults : List Bool) (sm : StateMachine) : StateMachine :=
  { sm with disk := { sm.disk with faults := faults } }

theorem fileOp_cases (sm : StateMachine) :
    ∃ faults, fileOp dataDir sm = (.ok (), withFaults faults sm) ∨
      fileOp dataDir sm = (.error .fault, withFaults faults sm) := by
  rw [fileOp]
  split
  · exact ⟨sm.disk.faults, Or.inl rfl⟩
  · rename_i rest _
    exact ⟨rest, Or.inl rfl⟩
  · rename_i rest _
    exact ⟨rest, Or.inr rfl⟩

/-- `write_json` renames the file, or fails before. -/
theorem writeJson_cases (rename : Disk → Disk) (sm : StateMachine) :
    ∃ faults, writeJson rename sm =
        (.ok (), { sm with disk := rename { sm.disk with faults := faults } }) ∨
      writeJson rename sm = (.error .fault, withFaults faults sm) := by
  rw [writeJson]
  obtain ⟨faults, hop | hop⟩ := fileOp_cases sm
  · rw [bind_ok hop]
    obtain ⟨faults', hop' | hop'⟩ := fileOp_cases (withFaults faults sm)
    · rw [bind_ok hop']
      exact ⟨faults', Or.inl rfl⟩
    · rw [bind_error hop']
      exact ⟨faults', Or.inr rfl⟩
  · rw [bind_error hop]
    exact ⟨faults, Or.inr rfl⟩

/-- A file under the next id is none of the tables in use. -/
theorem replaceFile_view {sm : StateMachine} (h : Live sm) (entries : List SSTEntry)
    {sm' : StateMachine} (htables : sm'.sstables = sm.sstables)
    (hmem : sm'.memtable = sm.memtable) (hpending : sm'.pendingTxs = sm.pendingTxs)
    (hnext : sm.nextSstId ≤ sm'.nextSstId)
    (hsst : sm'.disk.sst = replaceFile sm.disk.sst sm.nextSstId entries) : SameView sm sm' := by
  refine ⟨htables, hmem, hpending, hnext, fun x hx => ?_⟩
  have hlt := h.next x hx
  rw [hsst, lookup_replaceFile_of_ne (by omega)]

/-- `flush` and `compact` write their table under the next id, or fail on the
way; the tables in use are not touched. -/
theorem writeTable_cases {sm : StateMachine} (h : Live sm) (entries : List SSTEntry) :
    ∃ sm', SameView sm sm' ∧
      (writeTable entries sm = (.error .fault, sm') ∨
        writeTable entries sm =
            (.ok { path := sm.nextSstId, sstMeta := sidecarOf sm.nextSstId entries }, sm') ∧
          sm'.disk.sst.lookup sm.nextSstId = some entries ∧
          sm.nextSstId < sm'.nextSstId) := by
  rw [writeTable, bind_getThe, bind_modify]
  dsimp only
  obtain ⟨faults, hsst | hsst⟩ := writeJson_cases
    (fun d => { d with sst := replaceFile d.sst sm.nextSstId entries })
    { sm with nextSstId := sm.nextSstId + 1 }
  · rw [bind_ok hsst]
    obtain ⟨faults', hmeta | hmeta⟩ := writeJson_cases
      (fun d => { d with
        sidecars := replaceFile d.sidecars sm.nextSstId (sidecarOf sm.nextSstId entries) })
      { sm with
        nextSstId := sm.nextSstId + 1
        disk := { sm.disk with
          faults := faults
          sst := replaceFile sm.disk.sst sm.nextSstId entries } }
    · rw [bind_ok hmeta]
      refine ⟨_, ?_, Or.inr ⟨rfl, lookup_replaceFile_self _ _ _, Nat.lt_succ_self _⟩⟩
      exact replaceFile_view h entries rfl rfl rfl (Nat.le_succ _) rfl
    · rw [bind_error hmeta]
      refine ⟨_, ?_, Or.inl rfl⟩
      exact replaceFile_view h entries rfl rfl rfl (Nat.le_succ _) rfl
  · rw [bind_error hsst]
    refine ⟨withFaults faults { sm with nextSstId := sm.nextSstId + 1 }, ?_, Or.inl rfl⟩
    exact ⟨rfl, rfl, rfl, Nat.le_succ _, fun _ _ => rfl⟩

/-- What a store reads its contents and its transactions from. -/
def view (sm : StateMachine) :
    List SSTableHandle × TreeMap String MemEntry × TreeMap String PendingTx × Nat ×
      List (Nat × List SSTEntry) :=
  (sm.sstables, sm.memtable, sm.pendingTxs, sm.nextSstId, sm.disk.sst)

theorem SameView.of_keeps {α : Type} {x : Io α} (h : Keeps view x) (sm : StateMachine) :
    SameView sm (x sm).2 := by
  have hview := h sm
  unfold view at hview
  simp only [Prod.mk.injEq] at hview
  obtain ⟨htables, hmem, hpending, hnext, hsst⟩ := hview
  exact ⟨htables, hmem, hpending, hnext.ge, fun _ _ => by rw [hsst]⟩

theorem truncateWal_keeps : Keeps view truncateWal :=
  Keeps.bind (Keeps.fileOp fun _ _ => rfl) fun _ =>
    Keeps.bind (Keeps.modify fun _ => rfl) fun _ =>
      Keeps.bind (Keeps.fileOp fun _ _ => rfl) fun _ => Keeps.fileOp fun _ _ => rfl

theorem appendWal_keeps (op : WalOp) : Keeps view (appendWal op) :=
  Keeps.bind (Keeps.fileOp fun _ _ => rfl) fun _ =>
    Keeps.bind (Keeps.modify fun _ => rfl) fun _ => Keeps.fileOp fun _ _ => rfl

/-! ## Flush -/

/-- The store after `flush`, wherever it failed. -/
structure Flushed (sm sm' : StateMachine) : Prop where
  live : Live sm'
  shown : ∀ key, sm'.shown key = sm.shown key
  pendingTxs : sm'.pendingTxs = sm.pendingTxs

theorem SameView.flushed {sm sm' : StateMachine} (h : SameView sm sm') (hlive : Live sm) :
    Flushed sm sm' :=
  ⟨h.live hlive, fun key => by rw [shown, h.liveTrace, shown], h.pendingTxs⟩

theorem Flushed.trans {sm sm₁ sm₂ : StateMachine} (h : Flushed sm sm₁) (h' : Flushed sm₁ sm₂) :
    Flushed sm sm₂ :=
  ⟨h'.live, fun key => (h'.shown key).trans (h.shown key), h'.pendingTxs.trans h.pendingTxs⟩

/-- The memtable has become the newest table. -/
theorem flushed_table {sm sm₁ : StateMachine} (hlive : Live sm) (h : SameView sm sm₁)
    (hfile : sm₁.disk.sst.lookup sm.nextSstId = some (memtableEntries sm.memtable))
    (hnext : sm.nextSstId < sm₁.nextSstId) (m : SSTableMeta) :
    Flushed sm
      { sm₁ with
        sstables := sm₁.sstables ++ [{ path := sm.nextSstId, sstMeta := m }]
        memtable := ∅
        memtableBytes := 0 } := by
  have hlive₁ := h.live hlive
  have hload : sm₁.disk.loadSstEntries sm.nextSstId = .ok (memtableEntries sm.memtable) := by
    rw [Disk.loadSstEntries, hfile]
  have hrows : SSTableHandle.rows { path := sm.nextSstId, sstMeta := m } sm₁.disk =
      memtableEntries sm.memtable := by
    rw [SSTableHandle.rows, hload]
  refine ⟨⟨fun x hx => ?_, fun x hx => ?_, fun x hx => ?_⟩, fun key => ?_, h.pendingTxs⟩
  · rcases List.mem_append.mp hx with hx | hx
    · exact hlive₁.load x hx
    · rw [List.mem_singleton.mp hx]
      dsimp only
      rw [hload, hrows]
  · rcases List.mem_append.mp hx with hx | hx
    · exact hlive₁.rows x hx
    · rw [List.mem_singleton.mp hx]
      dsimp only
      rw [hrows]
      exact memtableEntries_wf sm.memtable
  · rcases List.mem_append.mp hx with hx | hx
    · exact hlive₁.next x hx
    · rw [List.mem_singleton.mp hx]
      exact hnext
  · unfold shown liveTrace liveRows
    dsimp only
    rw [List.flatMap_append, List.flatMap_singleton, hrows, rowsOf_append,
      rowsOf_memtableEntries_empty, List.append_nil, ← liveRows, h.liveRows, liveRows]

/-- `flush` changes nothing of what the store shows, also when it fails. -/
theorem flush_view {sm : StateMachine} (h : Live sm) : Flushed sm (flush sm).2 := by
  rw [flush, bind_getThe]
  by_cases hempty : sm.memtable.isEmpty = true
  · rw [if_pos hempty]
    exact (SameView.refl sm).flushed h
  · rw [if_neg hempty]
    obtain ⟨sm₁, hview, heq | ⟨heq, hfile, hnext⟩⟩ :=
      writeTable_cases h (memtableEntries sm.memtable)
    · rw [bind_error heq]
      exact hview.flushed h
    · rw [bind_ok heq, bind_modify, bind_modify]
      have hflushed := flushed_table h hview hfile hnext
        (sidecarOf sm.nextSstId (memtableEntries sm.memtable))
      exact hflushed.trans ((SameView.of_keeps truncateWal_keeps _).flushed hflushed.live)

/-! ## Single writes -/

/-- `append_wal` of a row fails. -/
def appendFails (row : String × Option String) (sm : StateMachine) : Bool :=
  match (appendWal (walOpOf row.1 row.2) sm).1 with
  | .ok _ => false
  | .error _ => true

/-- `set` or `delete` of a row. -/
def writeRow (row : String × Option String) : Io Unit :=
  write row.1 row.2 (walOpOf row.1 row.2)

/-- A row is shown from the call on, unless `append_wal` failed.  The flush
does not matter. -/
theorem writeRow_view {sm : StateMachine} (h : Live sm) (row : String × Option String) :
    Live (writeRow row sm).2 ∧ (writeRow row sm).2.pendingTxs = sm.pendingTxs ∧
      ∀ key, (writeRow row sm).2.shown key =
        lastWrite (sm.liveTrace ++ if appendFails row sm then [] else [row]) key := by
  have hview := SameView.of_keeps (appendWal_keeps (walOpOf row.1 row.2)) sm
  rcases happ : appendWal (walOpOf row.1 row.2) sm with ⟨e | _, sm₁⟩
  · have hfails : appendFails row sm = true := by rw [appendFails, happ]
    have hflushed := hview.flushed h
    rw [happ] at hflushed
    rw [writeRow, write, bind_error happ, hfails, if_pos rfl, List.append_nil]
    exact ⟨hflushed.live, hflushed.pendingTxs, hflushed.shown⟩
  · have hfails : appendFails row sm = false := by rw [appendFails, happ]
    rw [happ] at hview
    have hlive₁ := hview.live h
    rw [hfails, if_neg Bool.false_ne_true]
    -- the row is in the memtable before the flush begins
    have hinsert : ∀ key, (insertRow row.1 row.2 sm₁).shown key =
        lastWrite (sm.liveTrace ++ [row]) key := by
      intro key
      apply lastWrite_congr
      rw [← hview.liveTrace]
      show record (rowsOf sm₁.liveRows ++
        rowsOf (memtableEntries (sm₁.memtable.insert row.1 ⟨row.2⟩))) key = _
      rw [liveTrace, List.append_assoc, record_append, record_memtable_insert, ← record_append]
    have hliveInsert : Live (insertRow row.1 row.2 sm₁) :=
      ⟨hlive₁.load, hlive₁.rows, hlive₁.next⟩
    rw [writeRow, write, bind_ok happ, bind_modify, bind_getThe]
    split
    · have hflush := flush_view hliveInsert
      exact ⟨hflush.live, hflush.pendingTxs.trans hview.pendingTxs,
        fun key => (hflush.shown key).trans (hinsert key)⟩
    · exact ⟨hliveInsert, hview.pendingTxs, hinsert⟩

/-! ## Several writes -/

/-- Which of the `append_wal` calls for the rows fail, when the rows are
written one after the other and no failure stops the next. -/
def appendFailures : List (String × Option String) → StateMachine → List Bool
  | [], _ => []
  | row :: rows, sm => appendFails row sm :: appendFailures rows (writeRow row sm).2

/-- The rows whose `append_wal` does not fail. -/
def surviving : List (String × Option String) → List Bool → List (String × Option String)
  | row :: rows, fails :: rest => (if fails then [] else [row]) ++ surviving rows rest
  | _, _ => []

/-- The rows one after the other, with the results dropped. -/
def writeRows (rows : List (String × Option String)) (sm : StateMachine) : StateMachine :=
  rows.foldl (fun sm row => (writeRow row sm).2) sm

theorem writeRows_view (rows : List (String × Option String)) :
    ∀ {sm : StateMachine}, Live sm →
      Live (writeRows rows sm) ∧ (writeRows rows sm).pendingTxs = sm.pendingTxs ∧
        ∀ key, (writeRows rows sm).shown key =
          lastWrite (sm.liveTrace ++ surviving rows (appendFailures rows sm)) key := by
  induction rows with
  | nil =>
    intro sm h
    refine ⟨h, rfl, fun key => ?_⟩
    show sm.shown key = lastWrite (sm.liveTrace ++ []) key
    rw [List.append_nil, shown]
  | cons row rows ih =>
    intro sm h
    obtain ⟨hlive, hpending, hshown⟩ := writeRow_view h row
    obtain ⟨hlive', hpending', hshown'⟩ := ih hlive
    refine ⟨hlive', hpending'.trans hpending, fun key => ?_⟩
    rw [appendFailures, surviving, ← List.append_assoc]
    exact (hshown' key).trans (lastWrite_append_congr hshown _ key)

/-! ## Writes and transactions -/

/-- The store with other transactions in flight. -/
def withPending (pendingTxs : TreeMap String PendingTx) (sm : StateMachine) : StateMachine :=
  { sm with pendingTxs := pendingTxs }

section Pending

variable (p : TreeMap String PendingTx)

theorem fileOp_pending : Commutes (withPending p) (fileOp dataDir) :=
  Commutes.fileOp (fun _ => rfl) fun _ _ => rfl

theorem appendWal_pending (op : WalOp) : Commutes (withPending p) (appendWal op) :=
  Commutes.bind (fileOp_pending p) fun _ =>
    Commutes.bind (Commutes.modify fun _ => rfl) fun _ => fileOp_pending p

theorem writeJson_pending (rename : Disk → Disk) : Commutes (withPending p) (writeJson rename) :=
  Commutes.bind (fileOp_pending p) fun _ =>
    Commutes.bind (fileOp_pending p) fun _ => Commutes.modify fun _ => rfl

theorem writeTable_pending (entries : List SSTEntry) :
    Commutes (withPending p) (writeTable entries) :=
  Commutes.getThe (fun _ => rfl) fun _ =>
    Commutes.bind (Commutes.modify fun _ => rfl) fun _ =>
      Commutes.bind (writeJson_pending p _) fun _ =>
        Commutes.bind (writeJson_pending p _) fun _ => Commutes.pure _

theorem truncateWal_pending : Commutes (withPending p) truncateWal :=
  Commutes.bind (fileOp_pending p) fun _ =>
    Commutes.bind (Commutes.modify fun _ => rfl) fun _ =>
      Commutes.bind (fileOp_pending p) fun _ => fileOp_pending p

theorem flush_pending : Commutes (withPending p) flush := by
  refine Commutes.getThe (fun _ => rfl) fun sm => ?_
  split
  · exact Commutes.pure _
  · exact Commutes.bind (writeTable_pending p _) fun _ =>
      Commutes.bind (Commutes.modify fun _ => rfl) fun _ =>
        Commutes.bind (Commutes.modify fun _ => rfl) fun _ => truncateWal_pending p

/-- A write does not look at the transactions. -/
theorem writeRow_pending (row : String × Option String) :
    Commutes (withPending p) (writeRow row) := by
  refine Commutes.bind (appendWal_pending p _) fun _ =>
    Commutes.bind (Commutes.modify fun _ => rfl) fun _ =>
      Commutes.getThe (fun _ => rfl) fun sm => ?_
  split
  · exact flush_pending p
  · exact Commutes.pure _

theorem writeRows_pending (rows : List (String × Option String)) :
    ∀ sm : StateMachine, writeRows rows (withPending p sm) =
      withPending p (writeRows rows sm) := by
  induction rows with
  | nil => exact fun _ => rfl
  | cons row rows ih =>
    intro sm
    show writeRows rows (writeRow row (withPending p sm)).2 = _
    rw [writeRow_pending p row sm, ih]
    rfl

end Pending

theorem writeRows_append (xs ys : List (String × Option String)) (sm : StateMachine) :
    writeRows (xs ++ ys) sm = writeRows ys (writeRows xs sm) :=
  List.foldl_append

/-- The operations of a transaction are writes whose results are dropped. -/
theorem forM_applyTxOp (ops : List TxOp) :
    ∀ sm : StateMachine,
      (ops.forM applyTxOp) sm = (.ok (), writeRows (ops.map txOpWrite) sm) := by
  induction ops with
  | nil => exact fun _ => rfl
  | cons op ops ih =>
    intro sm
    have hop : applyTxOp op sm = (.ok (), (writeRow (txOpWrite op) sm).2) := by
      cases op <;> rfl
    rw [List.forM, bind_ok hop, ih]
    rfl

end StateMachine

end OxideKv
