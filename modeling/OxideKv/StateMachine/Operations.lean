import OxideKv.StateMachine.Contents

/-!
# The methods that move data between the layers

`compact`, a reopen of the directory, `decide_tx`, `snapshot_data` and the
two ways to load a snapshot, each with what it does to the contents.

The merge of `compact` is a fold of inserts, so its result is the record of
the table trace (`getElem?_mergeRows`).  Dropping the tombstones afterwards
does not show, because every table took part and nothing older is left
(`compact_ok`).
-/

namespace OxideKv

open Std Fallible LastWrite

namespace StateMachine

/-! ## Compaction -/

/-- The rows of every table, oldest first. -/
def tableRows (d : Disk) : List SSTEntry := d.sst.flatMap Prod.snd

theorem rowsOf_tableRows (d : Disk) : rowsOf (tableRows d) = tableTrace d := by
  rw [rowsOf, tableRows, tableTrace, List.map_flatMap]
  rfl

/-- The inserts of the merge loop, over a plain list of rows. -/
def mergeRows (merged : TreeMap String SSTEntry) (rows : List SSTEntry) :
    TreeMap String SSTEntry :=
  rows.foldl (fun m entry => m.insert entry.key entry) merged

/-- The merge keeps, for each key, the last row under it. -/
theorem getElem?_mergeRows (rows : List SSTEntry) (key : String) :
    ∀ merged : TreeMap String SSTEntry,
      (mergeRows merged rows)[key]? =
        (rows.reverse.find? (fun e => e.key == key)).or merged[key]? := by
  induction rows with
  | nil => intro merged; simp [mergeRows]
  | cons row rows ih =>
    intro merged
    rw [mergeRows, List.foldl_cons, ← mergeRows, ih, List.reverse_cons, List.find?_append,
      Option.or_assoc, TreeMap.getElem?_insert]
    congr 1
    by_cases h : row.key = key <;> simp [h]

theorem record_rowsOf (rows : List SSTEntry) (key : String) :
    record (rowsOf rows) key =
      (rows.reverse.find? (fun e => e.key == key)).map SSTEntry.shown := by
  induction rows with
  | nil => rfl
  | cons row rows ih =>
    rw [rowsOf_cons, record_cons, ih, List.reverse_cons, List.find?_append, Option.map_or]
    congr 1
    by_cases h : row.key = key <;> simp [h]

/-- A row of the merge is one of the rows that went in, under its own key. -/
theorem mergeRows_row {rows : List SSTEntry} {key : String} {e : SSTEntry}
    (h : (mergeRows ∅ rows)[key]? = some e) : e ∈ rows ∧ e.key = key := by
  rw [getElem?_mergeRows] at h
  simp only [TreeMap.getElem?_emptyc, Option.or_none] at h
  have hkey := List.find?_some h
  have hmem := List.mem_of_find?_eq_some h
  exact ⟨List.mem_reverse.mp hmem, by simpa using hkey⟩

theorem mem_mergeRows_toList {rows : List SSTEntry} {p : String × SSTEntry}
    (hp : p ∈ (mergeRows ∅ rows).toList) : p.2 ∈ rows ∧ p.2.key = p.1 :=
  mergeRows_row (TreeMap.mem_toList_iff_getElem?_eq_some.mp hp)

/-- The rows of the merge, in key order. -/
def mergedEntries (merged : TreeMap String SSTEntry) : List SSTEntry :=
  merged.toList.map Prod.snd

theorem mergedEntries_wf {rows : List SSTEntry}
    (htomb : ∀ e ∈ rows, e.tombstone = e.value.isNone) :
    RowsWf (mergedEntries (mergeRows ∅ rows)) where
  sorted := by
    rw [mergedEntries, List.pairwise_map]
    refine List.pairwise_iff_forall_sublist.mpr ?_
    intro a b hab
    have hlt := List.pairwise_iff_forall_sublist.mp (sorted_keys_toList (mergeRows ∅ rows)) hab
    have ha := mem_mergeRows_toList (hab.subset List.mem_cons_self)
    have hb := mem_mergeRows_toList (hab.subset (List.mem_cons_of_mem _ List.mem_cons_self))
    rw [ha.2, hb.2]
    exact hlt
  tombstone := by
    intro e he
    obtain ⟨p, hp, rfl⟩ := List.mem_map.mp he
    exact htomb _ (mem_mergeRows_toList hp).1

/-- The merge records what the rows record. -/
theorem record_mergedEntries {rows : List SSTEntry}
    (htomb : ∀ e ∈ rows, e.tombstone = e.value.isNone) (key : String) :
    record (rowsOf (mergedEntries (mergeRows ∅ rows))) key = record (rowsOf rows) key := by
  have hget := getElem?_mergeRows rows key ∅
  simp only [TreeMap.getElem?_emptyc, Option.or_none] at hget
  rw [record_rowsOf rows key, ← hget]
  cases hm : (mergeRows ∅ rows)[key]? with
  | none =>
    rw [Option.map_none, record_eq_none_iff]
    intro w hw hk
    obtain ⟨e, he, rfl⟩ := List.mem_map.mp hw
    obtain ⟨p, hp, rfl⟩ := List.mem_map.mp he
    have hp' := TreeMap.mem_toList_iff_getElem?_eq_some.mp hp
    rw [← (mem_mergeRows_toList hp).2, show p.2.key = key from hk, hm] at hp'
    simp at hp'
  | some e =>
    rw [Option.map_some, record_eq_some_iff (mergedEntries_wf htomb).nodup]
    have hmem : e ∈ mergedEntries (mergeRows ∅ rows) :=
      List.mem_map.mpr ⟨(key, e), TreeMap.mem_toList_iff_getElem?_eq_some.mpr hm, rfl⟩
    exact List.mem_map.mpr ⟨e, hmem, by rw [(mergeRows_row hm).2]⟩

/-- The rows that survive compaction are in key order and hold the map of
the rows that went in. -/
theorem compactedEntries_ok {rows : List SSTEntry}
    (htomb : ∀ e ∈ rows, e.tombstone = e.value.isNone) :
    RowsWf (compactedEntries (mergeRows ∅ rows)) ∧
      ∀ key, lastWrite (rowsOf (compactedEntries (mergeRows ∅ rows))) key =
        lastWrite (rowsOf rows) key := by
  have hall := mergedEntries_wf htomb
  refine ⟨⟨hall.sorted.sublist List.filter_sublist,
    fun e he => hall.tombstone e (List.mem_of_mem_filter he)⟩, fun key => ?_⟩
  have hfilter : rowsOf (compactedEntries (mergeRows ∅ rows)) =
      (rowsOf (mergedEntries (mergeRows ∅ rows))).filter (fun w => w.2.isSome) := by
    rw [compactedEntries, ← mergedEntries, rowsOf, rowsOf, List.filter_map]
    congr 1
    apply List.filter_congr
    intro e he
    have := hall.tombstone e he
    cases hv : e.value <;> simp_all [SSTEntry.shown]
  rw [hfilter, lastWrite_filter_some hall.nodup]
  exact lastWrite_congr (record_mergedEntries htomb key)

/-- A loop over the tables that loads each of them reads every file. -/
theorem Readable.foldTables {sm : StateMachine} (h : Readable sm) {γ : Type}
    (f : γ → List SSTEntry → γ) (init : γ) :
    sm.sstables.foldlM
        (fun acc sst => do
          let entries ← sm.disk.loadSstEntries sst.path
          pure (f acc entries)) init =
      (.ok ((sm.disk.sst.map Prod.snd).foldl f init) : Except IoError γ) := by
  have hload : ∀ (files : List (Nat × List SSTEntry)) (handles : List SSTableHandle) (acc : γ),
      handles.map SSTableHandle.path = files.map Prod.fst → (∀ g ∈ files, g ∈ sm.disk.sst) →
      handles.foldlM
          (fun acc sst => do
            let entries ← sm.disk.loadSstEntries sst.path
            pure (f acc entries)) acc =
        (.ok ((files.map Prod.snd).foldl f acc) : Except IoError γ) := by
    intro files
    induction files with
    | nil =>
      intro handles acc hpaths _
      rw [List.map_eq_nil_iff.mp hpaths]
      rfl
    | cons g files ih =>
      intro handles acc hpaths hmem
      obtain ⟨handle, handles, rfl, hpath, hrest⟩ := List.map_eq_cons_iff.mp hpaths
      rw [List.foldlM_cons, hpath, h.loadSstEntries (hmem g List.mem_cons_self)]
      exact ih handles (f acc g.2) hrest fun x hx => hmem x (List.mem_cons_of_mem _ hx)
  exact hload sm.disk.sst sm.sstables init h.paths fun _ hf => hf

theorem mergeTables_ok {sm : StateMachine} (h : Readable sm) :
    mergeTables sm.disk sm.sstables = .ok (mergeRows ∅ (tableRows sm.disk)) := by
  rw [mergeTables, h.foldTables, tableRows, mergeRows, List.flatMap_def, List.foldl_flatten,
    List.foldl_map]

/-- Removing the paths of the old files leaves the new one. -/
theorem filter_oldPaths {α : Type} {files : List (Nat × α)} {paths : List Nat} {id : Nat}
    (hold : ∀ f ∈ files, f.1 ∈ paths) (hnew : id ∉ paths) (content : α) :
    (files ++ [(id, content)]).filter (fun f => decide (f.1 ∉ paths)) = [(id, content)] := by
  rw [List.filter_append, List.filter_eq_nil_iff.mpr, List.nil_append]
  · simp only [List.filter_cons, hnew, not_false_eq_true, decide_true, if_true, List.filter_nil]
  · intro f hf
    simp only [hold f hf, not_true_eq_false, decide_false, Bool.false_eq_true,
      not_false_eq_true]

theorem Readable.tombstones {sm : StateMachine} (h : Readable sm) :
    ∀ e ∈ tableRows sm.disk, e.tombstone = e.value.isNone := by
  intro e he
  obtain ⟨f, hf, he⟩ := List.mem_flatMap.mp he
  exact (h.rows f hf).tombstone e he

theorem Layout.oldPaths {sm : StateMachine} (h : Layout sm) :
    ∀ f ∈ sm.disk.sst, f.1 ∈ sm.sstables.map SSTableHandle.path := by
  intro f hf
  rw [h.paths]
  exact List.mem_map.mpr ⟨f, hf, rfl⟩

theorem Layout.oldSidecars {sm : StateMachine} (h : Layout sm) :
    ∀ f ∈ sm.disk.sidecars, f.1 ∈ sm.sstables.map SSTableHandle.path := by
  intro f hf
  rw [h.sidecars] at hf
  obtain ⟨g, hg, rfl⟩ := List.mem_map.mp hf
  exact h.oldPaths g hg

/-- `compact` writes nothing. -/
theorem compact_ok {sm : StateMachine} (h : Layout sm) :
    ∃ sm', compact sm = (.ok (), sm') ∧ Writes sm sm' [] ∧
      sm'.pendingTxs = sm.pendingTxs := by
  rw [compact, bind_getThe]
  by_cases hfew : sm.sstables.length < 2
  · rw [if_pos hfew]
    exact ⟨sm, rfl, Writes.refl h, rfl⟩
  · obtain ⟨hrowsWf, hlast⟩ := compactedEntries_ok h.readable.tombstones
    obtain ⟨hdisk, hids, -, hrows⟩ := h.addTable hrowsWf
    have hmerge : pureResult (mergeTables sm.disk sm.sstables) sm =
        (.ok (mergeRows ∅ (tableRows sm.disk)), sm) := by
      rw [pureResult, mergeTables_ok h.readable]
    rw [if_neg hfew, bind_ok hmerge, bind_ok (writeTable_ok h.faults _), bind_modify,
      forM_removeTable_ok _ (by exact h.faults)]
    set id := sm.nextSstId with hid
    set entries := compactedEntries (mergeRows ∅ (tableRows sm.disk)) with hentries
    have hfresh : id ∉ sm.sstables.map SSTableHandle.path := by
      rw [h.paths]
      intro hmem
      obtain ⟨f, hf, heq⟩ := List.mem_map.mp hmem
      have := h.next f hf
      omega
    have hsst := filter_oldPaths h.oldPaths hfresh entries
    have hside := filter_oldPaths h.oldSidecars hfresh (sidecarOf id entries)
    refine ⟨_, rfl, ⟨?_, fun hd => by simp only [hdisk]; exact hd, ?_⟩, rfl⟩
    · simp only [hdisk, hsst, hside]
      exact ⟨h.faults, rfl, rfl, by simp, by simp [hid], by simpa using hrowsWf⟩
    · intro key
      simp only [StateMachine.contents, trace, hdisk, tableTrace, hsst, List.flatMap_cons,
        List.flatMap_nil, List.append_nil]
      refine lastWrite_append_congr (fun k => ?_) _ key
      rw [hlast k, rowsOf_tableRows]
      rfl

/-! ## Close and reopen -/

theorem mapM_ok {α β : Type} {f : α → Except IoError β} {g : α → β} :
    ∀ {xs : List α}, (∀ x ∈ xs, f x = .ok (g x)) → xs.mapM f = .ok (xs.map g) := by
  intro xs
  induction xs with
  | nil => exact fun _ => rfl
  | cons x xs ih =>
    intro h
    rw [List.mapM_cons, h x List.mem_cons_self, ih fun y hy => h y (List.mem_cons_of_mem _ hy)]
    rfl

theorem discover_ok {sm : StateMachine} (h : Layout sm) :
    discover sm.disk = .ok sm.sstables := by
  rw [h.handles]
  apply mapM_ok
  intro f hf
  have hmem : (f.1, sidecarOf f.1 f.2) ∈ sm.disk.sidecars := by
    rw [h.sidecars]
    exact List.mem_map.mpr ⟨f, hf, rfl⟩
  have hnodup : (sm.disk.sidecars.map Prod.fst).Nodup := by
    rw [h.sidecars, List.map_map]
    exact h.readable.nodupIds
  rw [Disk.loadSstMeta, lookup_of_mem hnodup hmem]
  rfl

/-- The counter that `open` computes is above every id it has seen. -/
theorem lt_foldl_max (files : List (Nat × List SSTEntry)) :
    ∀ next, next ≤ files.foldl (fun next f => max next (f.1 + 1)) next ∧
      ∀ f ∈ files, f.1 < files.foldl (fun next f => max next (f.1 + 1)) next := by
  induction files with
  | nil => intro next; simp
  | cons g files ih =>
    intro next
    obtain ⟨hle, hlt⟩ := ih (max next (g.1 + 1))
    rw [List.foldl_cons]
    refine ⟨by omega, fun f hf => ?_⟩
    rcases List.mem_cons.mp hf with rfl | hf
    · omega
    · exact hlt f hf

/-- A reopen finds the contents again, and forgets the transactions in
flight. -/
theorem openStore_ok {sm : StateMachine} (h : Layout sm) (hd : Durable sm)
    (threshold : Nat) :
    ∃ sm', openStore threshold sm.disk = .ok sm' ∧ Writes sm sm' [] ∧
      sm'.pendingTxs = ∅ := by
  have hsorted : sm.sstables.Pairwise (fun a b => a.sstMeta.id ≤ b.sstMeta.id) := by
    rw [h.handles, List.pairwise_map]
    exact (List.pairwise_map.mp h.ids).imp fun hlt => by
      simp only [sidecarOf]
      omega
  refine ⟨{ memtableSizeThreshold := threshold
            memtable := sm.memtable
            memtableBytes := (replayWal sm.disk.wal).2
            sstables := sm.sstables
            nextSstId := sm.disk.sst.foldl (fun next f => max next (f.1 + 1)) 0
            pendingTxs := ∅
            disk := sm.disk }, ?_, ⟨?_, fun _ => hd, ?_⟩, rfl⟩
  · rw [openStore, discover_ok h]
    show Except.ok _ = Except.ok _
    have hmemtable : (sm.disk.wal.foldl replayWalOp (∅, 0)).1 = sm.memtable := hd
    rw [hsorted.insertionSort_eq, hmemtable]
    rfl
  · exact ⟨h.faults, h.handles, h.sidecars, h.ids, (lt_foldl_max _ 0).2, h.rows⟩
  · intro key
    rw [List.append_nil]
    rfl

/-- A fresh directory opens to an empty store. -/
theorem openStore_empty (threshold : Nat) :
    ∃ sm, openStore threshold Disk.empty = .ok sm ∧ Layout sm ∧ Durable sm ∧
      sm.trace = [] ∧ sm.pendingTxs = ∅ := by
  refine ⟨_, rfl, ⟨rfl, rfl, rfl, ?_, ?_, ?_⟩, rfl, rfl, rfl⟩ <;> simp [Disk.empty]

/-- A loop whose turns write one row each. -/
theorem forM_writes {α : Type} {turn : α → Io Unit} {row : α → String × Option String}
    (hturn : ∀ {sm : StateMachine} (a : α), Layout sm →
      ∃ sm', turn a sm = (.ok (), sm') ∧ Writes sm sm' [row a] ∧
        sm'.pendingTxs = sm.pendingTxs) (xs : List α) :
    ∀ {sm : StateMachine}, Layout sm →
      ∃ sm', (xs.forM turn) sm = (.ok (), sm') ∧ Writes sm sm' (xs.map row) ∧
        sm'.pendingTxs = sm.pendingTxs := by
  induction xs with
  | nil => exact fun h => ⟨_, rfl, Writes.refl h, rfl⟩
  | cons a xs ih =>
    intro sm h
    obtain ⟨sm₁, ha, hw₁, hp₁⟩ := hturn a h
    obtain ⟨sm₂, hxs, hw₂, hp₂⟩ := ih hw₁.layout
    refine ⟨sm₂, ?_, hw₁.trans hw₂, hp₂.trans hp₁⟩
    rw [List.forM, bind_ok ha]
    exact hxs

/-! ## Two-phase commit -/

/-- The write of one transaction operation. -/
def txOpWrite : TxOp → String × Option String
  | .put key value => (key, some value)
  | .delete key => (key, none)

theorem applyTxOp_ok {sm : StateMachine} (h : Layout sm) (op : TxOp) :
    ∃ sm', applyTxOp op sm = (.ok (), sm') ∧ Writes sm sm' [txOpWrite op] ∧
      sm'.pendingTxs = sm.pendingTxs := by
  cases op with
  | put key value =>
    obtain ⟨sm', hset, hw⟩ := set_ok h key value
    exact ⟨sm', ignoreErr_ok hset, hw⟩
  | delete key =>
    obtain ⟨sm', hdel, hw⟩ := delete_ok h key
    exact ⟨sm', ignoreErr_ok hdel, hw⟩

theorem forM_applyTxOp_ok (ops : List TxOp) :
    ∀ {sm : StateMachine}, Layout sm →
      ∃ sm', (ops.forM applyTxOp) sm = (.ok (), sm') ∧ Writes sm sm' (ops.map txOpWrite) ∧
        sm'.pendingTxs = sm.pendingTxs :=
  forM_writes (fun op h => applyTxOp_ok h op) ops

/-- The operations staged under a transaction id. -/
def staged (sm : StateMachine) (txId : String) : Option (List TxOp) :=
  (sm.pendingTxs[txId]?).map PendingTx.ops

theorem staged_congr {sm sm' : StateMachine} (h : sm'.pendingTxs = sm.pendingTxs) :
    sm'.staged = sm.staged := by
  funext txId
  rw [staged, h]
  rfl

theorem staged_of_empty {sm : StateMachine} (h : sm.pendingTxs = ∅) :
    sm.staged = fun _ => none := by
  funext txId
  rw [staged, h]
  rfl

theorem staged_insert (sm : StateMachine) (txId : String) (tx : PendingTx) :
    staged { sm with pendingTxs := sm.pendingTxs.insert txId tx } =
      Function.update sm.staged txId (some tx.ops) := by
  funext id
  rw [staged, TreeMap.getElem?_insert, Function.update_apply]
  by_cases hid : txId = id
  · simp [hid]
  · have hne : id ≠ txId := fun hc => hid hc.symm
    simp [hid, hne, staged]

theorem staged_erase (sm : StateMachine) (txId : String) :
    staged { sm with pendingTxs := sm.pendingTxs.erase txId } =
      Function.update sm.staged txId none := by
  funext id
  rw [staged, TreeMap.getElem?_erase, Function.update_apply]
  by_cases hid : txId = id
  · simp [hid]
  · have hne : id ≠ txId := fun hc => hid hc.symm
    simp [hid, hne, staged]

/-- A decision on a transaction that is not in flight stages nothing. -/
theorem staged_absent {sm : StateMachine} {txId : String} (h : sm.pendingTxs[txId]? = none) :
    sm.staged = Function.update sm.staged txId none := by
  refine (Function.update_eq_self_iff.mpr ?_).symm
  rw [staged, h]
  rfl

/-- The writes of a decision on the operations that are staged under its
id. -/
def decisionWrites (staged : Option (List TxOp)) : TxDecision → List (String × Option String)
  | .commit => (staged.getD []).map txOpWrite
  | .abort => []

theorem beginTx_ok {sm : StateMachine} (h : Layout sm) (txId : String) (ops : List TxOp)
    (nowUnixMs : Nat) :
    ∃ sm', beginTx txId ops nowUnixMs sm = (.ok (), sm') ∧ Writes sm sm' [] ∧
      sm'.staged = Function.update sm.staged txId (some ops) := by
  refine ⟨_, rfl, ⟨⟨h.faults, h.handles, h.sidecars, h.ids, h.next, h.rows⟩, id, ?_⟩,
    staged_insert sm txId _⟩
  intro key
  rw [List.append_nil]
  rfl

theorem decideTx_ok {sm : StateMachine} (h : Layout sm) (txId : String) (decision : TxDecision) :
    ∃ sm', decideTx txId decision sm = (.ok (), sm') ∧
      Writes sm sm' (decisionWrites (sm.staged txId) decision) ∧
      sm'.staged = Function.update sm.staged txId none := by
  rw [decideTx, bind_getThe, staged]
  cases htx : sm.pendingTxs[txId]? with
  | none =>
    have hwrites : decisionWrites (Option.map PendingTx.ops none) decision = [] := by
      cases decision <;> rfl
    rw [hwrites]
    exact ⟨sm, rfl, Writes.refl h, staged_absent htx⟩
  | some tx =>
    set sm₁ : StateMachine := { sm with pendingTxs := sm.pendingTxs.erase txId }
    have hlayout : Layout sm₁ :=
      ⟨h.faults, h.handles, h.sidecars, h.ids, h.next, h.rows⟩
    have hstaged : sm₁.staged = Function.update sm.staged txId none := staged_erase sm txId
    dsimp only
    rw [bind_modify]
    cases decision with
    | commit =>
      obtain ⟨sm₂, hops, hw, hp⟩ := forM_applyTxOp_ok tx.ops hlayout
      exact ⟨sm₂, hops, ⟨hw.layout, hw.durable, hw.contents⟩, (staged_congr hp).trans hstaged⟩
    | abort => exact ⟨sm₁, rfl, ⟨hlayout, id, (Writes.refl hlayout).contents⟩, hstaged⟩

/-! ## Flattening and loading -/

theorem getElem?_overlayEntry (result : TreeMap String String) {entry : SSTEntry}
    (htomb : entry.tombstone = entry.value.isNone) (key : String) :
    (overlayEntry result entry)[key]? =
      if entry.key = key then entry.shown else result[key]? := by
  rw [overlayEntry, SSTEntry.shown]
  cases hv : entry.value with
  | none =>
    rw [hv] at htomb
    simp only [htomb, Option.isNone_none, if_true, TreeMap.getElem?_erase,
      Std.compare_eq_iff_eq]
  | some v =>
    rw [hv] at htomb
    simp only [htomb, Option.isNone_some, Bool.false_eq_true, if_false,
      TreeMap.getElem?_insert, Std.compare_eq_iff_eq]

/-- Overlaying rows is last-write-wins. -/
theorem getElem?_foldl_overlayEntry (rows : List SSTEntry) (key : String) :
    ∀ result : TreeMap String String, (∀ e ∈ rows, e.tombstone = e.value.isNone) →
      (rows.foldl overlayEntry result)[key]? =
        (record (rowsOf rows) key).getD result[key]? := by
  induction rows with
  | nil => exact fun _ _ => rfl
  | cons row rows ih =>
    intro result htomb
    rw [List.foldl_cons, ih _ fun e he => htomb e (List.mem_cons_of_mem _ he),
      getElem?_overlayEntry result (htomb row List.mem_cons_self), rowsOf_cons, record_cons]
    cases record (rowsOf rows) key with
    | some r => rfl
    | none => by_cases h : row.key = key <;> simp [h]

/-- The end of `snapshot_data` overlays the rows that the memtable would turn
into. -/
theorem foldl_memtable_overlay (memtable : TreeMap String MemEntry)
    (flat : TreeMap String String) :
    memtable.toList.foldl
        (fun result p =>
          match p.2.value with
          | some value => result.insert p.1 value
          | none => result.erase p.1) flat =
      (memtableEntries memtable).foldl overlayEntry flat := by
  rw [memtableEntries, List.foldl_map]
  congr 1
  funext result p
  cases p.2.value <;> simp [overlayEntry]

/-- `snapshot_data` is the contents. -/
theorem Readable.snapshotData {sm : StateMachine} (h : Readable sm) :
    ∃ data, snapshotData sm = .ok data ∧ ∀ key, data[key]? = sm.contents key := by
  have hflat : (sm.disk.sst.map Prod.snd).foldl
      (fun result entries => entries.foldl overlayEntry result) (∅ : TreeMap String String) =
        (tableRows sm.disk).foldl overlayEntry ∅ := by
    rw [tableRows, List.flatMap_def, List.foldl_flatten]
  refine ⟨(tableRows sm.disk ++ memtableEntries sm.memtable).foldl overlayEntry ∅, ?_, ?_⟩
  · rw [StateMachine.snapshotData, h.foldTables, hflat, List.foldl_append,
      ← foldl_memtable_overlay]
    rfl
  · intro key
    rw [getElem?_foldl_overlayEntry, rowsOf_append, rowsOf_tableRows,
      TreeMap.getElem?_emptyc, contents, lastWrite, trace]
    · cases record (tableTrace sm.disk ++ rowsOf (memtableEntries sm.memtable)) key <;> rfl
    · intro e he
      rcases List.mem_append.mp he with he | he
      · exact h.tombstones e he
      · exact (memtableEntries_wf sm.memtable).tombstone e he

theorem snapshotData_ok {sm : StateMachine} (h : Layout sm) :
    ∃ data, snapshotData sm = .ok data ∧ ∀ key, data[key]? = sm.contents key :=
  h.readable.snapshotData

/-- `clear_for_snapshot` leaves nothing. -/
theorem clearForSnapshot_ok {sm : StateMachine} (h : Layout sm) :
    ∃ sm', clearForSnapshot sm = (.ok (), sm') ∧ Layout sm' ∧ Durable sm' ∧
      sm'.trace = [] ∧ sm'.pendingTxs = ∅ := by
  rw [clearForSnapshot, bind_modify, bind_ok (truncateWal_ok (by exact h.faults)), bind_getThe,
    bind_ok (forM_removeTable_ok _ (by exact h.faults))]
  have hnil : ∀ {α : Type} (files : List (Nat × α)),
      (∀ f ∈ files, f.1 ∈ sm.sstables.map SSTableHandle.path) →
      files.filter (fun f => decide (f.1 ∉ sm.sstables.map SSTableHandle.path)) = [] := by
    intro α files hmem
    rw [List.filter_eq_nil_iff]
    intro f hf
    simp only [hmem f hf, not_true_eq_false, decide_false, Bool.false_eq_true, not_false_eq_true]
  have hsst : sm.disk.sst.filter
      (fun f => decide (f.1 ∉ sm.sstables.map SSTableHandle.path)) = [] :=
    hnil _ h.oldPaths
  have hside : sm.disk.sidecars.filter
      (fun f => decide (f.1 ∉ sm.sstables.map SSTableHandle.path)) = [] :=
    hnil _ h.oldSidecars
  refine ⟨_, rfl, ⟨h.faults, ?_, ?_, ?_, ?_, ?_⟩, rfl, ?_, rfl⟩ <;>
    simp only [hsst, hside, trace, tableTrace, List.map_nil, List.Pairwise.nil,
      List.not_mem_nil, false_implies, implies_true, List.flatMap_nil, List.nil_append,
      rowsOf_memtableEntries_empty]

/-- The rows of a snapshot land in the memtable. -/
theorem getElem?_foldl_installRow (rows : List (String × String)) (key : String) :
    ∀ sm : StateMachine,
      (rows.foldl installRow sm).memtable[key]? =
        ((record (rows.map fun p => (p.1, some p.2)) key).map MemEntry.mk).or
          sm.memtable[key]? := by
  induction rows with
  | nil => intro sm; rfl
  | cons row rows ih =>
    intro sm
    rw [List.foldl_cons, ih, List.map_cons, record_cons, Option.map_or, Option.or_assoc]
    congr 1
    rw [installRow, TreeMap.getElem?_insert]
    by_cases h : row.1 = key <;> simp [h]

theorem foldl_installRow_frame (rows : List (String × String)) :
    ∀ sm : StateMachine, ∃ bytes memtable,
      rows.foldl installRow sm = { sm with memtableBytes := bytes, memtable := memtable } := by
  induction rows with
  | nil => exact fun sm => ⟨_, _, rfl⟩
  | cons row rows ih =>
    intro sm
    obtain ⟨bytes, memtable, h⟩ := ih (installRow sm row)
    exact ⟨bytes, memtable, h⟩

/-- `install_snapshot` leaves exactly the rows of `data`. -/
theorem installSnapshot_ok {sm : StateMachine} (h : Layout sm) (data : TreeMap String String) :
    ∃ sm', installSnapshot data sm = (.ok (), sm') ∧ Layout sm' ∧
      (∀ key, sm'.contents key = data[key]?) ∧ sm'.pendingTxs = ∅ := by
  obtain ⟨sm₁, hclear, hlayout, -, htrace, hpend⟩ := clearForSnapshot_ok h
  rw [installSnapshot, bind_ok hclear, bind_modify]
  set sm₂ : StateMachine := { sm₁ with memtableBytes := 0 }
  obtain ⟨bytes, memtable, hframe⟩ := foldl_installRow_frame data.toList sm₂
  have htables : tableTrace sm₁.disk = [] := (List.append_eq_nil_iff.mp htrace).1
  have hrows := (List.append_eq_nil_iff.mp htrace).2
  refine ⟨data.toList.foldl installRow sm₂, rfl, ?_, ?_, ?_⟩
  · rw [hframe]
    exact ⟨hlayout.faults, hlayout.handles, hlayout.sidecars, hlayout.ids, hlayout.next,
      hlayout.rows⟩
  · intro key
    have hget := getElem?_foldl_installRow data.toList key sm₂
    have hempty : sm₂.memtable[key]? = none := by
      have hrec := record_memtable sm₁.memtable key
      rw [hrows, record_nil] at hrec
      exact Option.map_eq_none_iff.mp hrec.symm
    rw [hempty, Option.or_none] at hget
    have hdisk : (data.toList.foldl installRow sm₂).disk = sm₁.disk := by rw [hframe]
    rw [contents, trace, hdisk, htables, List.nil_append, lastWrite, record_memtable, hget,
      record_toList data some key]
    cases data[key]? <;> rfl
  · rw [hframe]
    exact hpend

end StateMachine

end OxideKv
