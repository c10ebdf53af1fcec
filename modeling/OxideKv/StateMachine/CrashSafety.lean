import OxideKv.Lib.Run
import OxideKv.StateMachine.FileSteps
import OxideKv.StateMachine.Reads

/-!
# What survives a crash

`open` takes a directory as it finds it.  `Files` is what it needs: increasing
ids, rows in key order, and a sidecar for every `.sst` file; sidecars without a
table do no harm.  `heldBy` is what the store then shows.

A crash inside `flush` or `compact` is harmless where the directory that is
left meets `Files` and holds the contents of the store.  Two things can go
wrong.  Between the rename to `.sst` and the rename to `.meta` the new table has
no sidecar, and `open` fails on it (`openStore_between_renames`).  And the rows
that `install_snapshot` has put into the memtable are in no log, so they are
lost unless the interrupted flush has written its table.  `Survives` excludes
both, and `crash_keeps_contents` is about every run whose crashes meet it.
-/

namespace OxideKv

open Fallible LastWrite Run

namespace StateMachine

/-- A directory that `open` can read. -/
structure Files (d : Disk) : Prop where
  faults : d.faults = []
  ids : (d.sst.map Prod.fst).Pairwise (· < ·)
  rows : ∀ f ∈ d.sst, RowsWf f.2
  sidecars : ∀ f ∈ d.sst, d.sidecars.lookup f.1 ≠ none
  sidecarIds : ∀ f ∈ d.sidecars, f.2.id = f.1

theorem Files.empty : Files Disk.empty := by
  refine ⟨rfl, ?_, ?_, ?_, ?_⟩ <;> simp [Disk.empty]

/-- What the store shows after `open`. -/
def heldBy (d : Disk) (key : String) : Option String :=
  lastWrite (tableTrace d ++ rowsOf (memtableEntries (replayWal d.wal).1)) key

/-- A store over such a directory.  What its log replays is in the memtable. -/
structure InOrder (sm : StateMachine) : Prop where
  files : Files sm.disk
  paths : sm.sstables.map SSTableHandle.path = sm.disk.sst.map Prod.fst
  next : ∀ f ∈ sm.disk.sst, f.1 < sm.nextSstId
  logged : ∀ (key : String) e,
    (replayWal sm.disk.wal).1[key]? = some e → sm.memtable[key]? = some e

theorem InOrder.readable {sm : StateMachine} (h : InOrder sm) : Readable sm :=
  ⟨h.paths, h.files.ids, h.files.rows⟩

/-! ## Opening -/

section Open

variable {d : Disk}

theorem mem_of_lookup {α : Type} {files : List (Nat × α)} {path : Nat} {content : α}
    (h : files.lookup path = some content) : (path, content) ∈ files := by
  induction files with
  | nil => cases h
  | cons f files ih =>
    rw [List.lookup_cons] at h
    split at h
    · rename_i heq
      obtain rfl := Option.some.inj h
      exact List.mem_cons.mpr (Or.inl (Prod.ext (by simpa using heq) rfl))
    · exact List.mem_cons_of_mem _ (ih h)

/-- The discovery loop finds the sidecar of every table. -/
theorem discover_files (h : Files d) :
    ∃ found, discover d = .ok found ∧
      found.map SSTableHandle.path = d.sst.map Prod.fst ∧
      ∀ handle ∈ found, handle.sstMeta.id = handle.path := by
  have hloop : ∀ files : List (Nat × List SSTEntry), (∀ f ∈ files, f ∈ d.sst) →
      ∃ found, (files.mapM fun f => do
          let m ← d.loadSstMeta f.1
          pure ({ path := f.1, sstMeta := m } : SSTableHandle)) = .ok found ∧
        found.map SSTableHandle.path = files.map Prod.fst ∧
        ∀ handle ∈ found, handle.sstMeta.id = handle.path := by
    intro files
    induction files with
    | nil => exact fun _ => ⟨[], rfl, rfl, by simp⟩
    | cons f files ih =>
      intro hmem
      obtain ⟨found, heq, hpaths, hids⟩ := ih fun g hg => hmem g (List.mem_cons_of_mem f hg)
      obtain ⟨m, hm⟩ := Option.ne_none_iff_exists'.mp (h.sidecars f (hmem f List.mem_cons_self))
      refine ⟨⟨f.1, m⟩ :: found, ?_, ?_, ?_⟩
      · rw [List.mapM_cons, Disk.loadSstMeta, hm, heq]
        rfl
      · rw [List.map_cons, List.map_cons, hpaths]
      · intro handle hhandle
        rcases List.mem_cons.mp hhandle with rfl | hhandle
        · exact h.sidecarIds _ (mem_of_lookup hm)
        · exact hids handle hhandle
  exact hloop d.sst fun _ hf => hf

/-- `open` succeeds on such a directory. -/
theorem openStore_files (h : Files d) (threshold : Nat) :
    ∃ sm, openStore threshold d = .ok sm ∧ InOrder sm ∧ Durable sm ∧
      ∀ key, sm.contents key = heldBy d key := by
  obtain ⟨found, hfound, hpaths, hids⟩ := discover_files h
  have hsorted : found.Pairwise (fun a b => a.sstMeta.id ≤ b.sstMeta.id) := by
    have hpairs : (found.map SSTableHandle.path).Pairwise (· < ·) := hpaths ▸ h.ids
    refine (List.pairwise_map.mp hpairs).imp_of_mem fun ha hb hlt => ?_
    rw [hids _ ha, hids _ hb]
    omega
  refine ⟨{ memtableSizeThreshold := threshold
            memtable := (replayWal d.wal).1
            memtableBytes := (replayWal d.wal).2
            sstables := found
            nextSstId := d.sst.foldl (fun next f => max next (f.1 + 1)) 0
            pendingTxs := ∅
            disk := d }, ?_, ⟨h, hpaths, (lt_foldl_max _ 0).2, fun _ _ he => he⟩, rfl, fun _ => rfl⟩
  rw [openStore, hfound]
  show Except.ok _ = Except.ok _
  rw [hsorted.insertionSort_eq]
  rfl

/-- `open` fails on a table without its sidecar. -/
theorem openStore_error {path : Nat} {entries : List SSTEntry} (hmem : (path, entries) ∈ d.sst)
    (hnone : d.sidecars.lookup path = none) (threshold : Nat) :
    openStore threshold d = .error .notFound := by
  have hloop : ∀ files : List (Nat × List SSTEntry), (path, entries) ∈ files →
      (files.mapM fun f => do
          let m ← d.loadSstMeta f.1
          pure ({ path := f.1, sstMeta := m } : SSTableHandle)) =
        (.error .notFound : Except IoError _) := by
    intro files
    induction files with
    | nil => exact fun hf => by cases hf
    | cons f files ih =>
      intro hf
      rw [List.mapM_cons, Disk.loadSstMeta]
      cases hlookup : d.sidecars.lookup f.1 with
      | none => rfl
      | some m =>
        rcases List.mem_cons.mp hf with rfl | hf
        · rw [hnone] at hlookup
          cases hlookup
        · rw [ih hf]
          rfl
  rw [openStore, discover, hloop d.sst hmem]
  rfl

end Open

/-! ## The directory after a step -/

section Steps

variable {d : Disk}

/-- A table under a new id. -/
theorem Files.withTable (h : Files d) {id : Nat} (hnew : ∀ f ∈ d.sst, f.1 < id)
    {entries : List SSTEntry} (hrows : RowsWf entries) :
    Files (withTable d id entries) ∧
      (StateMachine.withTable d id entries).sst = d.sst ++ [(id, entries)] := by
  have hsst : (StateMachine.withTable d id entries).sst = d.sst ++ [(id, entries)] :=
    replaceFile_fresh hnew entries
  refine ⟨⟨h.faults, ?_, ?_, ?_, ?_⟩, hsst⟩
  · rw [hsst, List.map_append, List.pairwise_append]
    refine ⟨h.ids, by simp, fun a ha b hb => ?_⟩
    obtain ⟨f, hf, rfl⟩ := List.mem_map.mp ha
    have := hnew f hf
    simp only [List.map_cons, List.map_nil, List.mem_singleton] at hb
    omega
  · rw [hsst]
    intro f hf
    rcases List.mem_append.mp hf with hf | hf
    · exact h.rows f hf
    · rw [List.mem_singleton.mp hf]
      exact hrows
  · rw [hsst]
    intro f hf
    show (replaceFile d.sidecars id (sidecarOf id entries)).lookup f.1 ≠ none
    rcases List.mem_append.mp hf with hf | hf
    · have := hnew f hf
      rw [lookup_replaceFile_of_ne (by omega)]
      exact h.sidecars f hf
    · rw [List.mem_singleton.mp hf, lookup_replaceFile_self]
      simp
  · intro f hf
    rcases List.mem_append.mp hf with hf | hf
    · exact h.sidecarIds f (List.mem_of_mem_filter hf)
    · rw [List.mem_singleton.mp hf]
      rfl

theorem Files.truncate (h : Files d) : Files { d with wal := [] } :=
  ⟨h.faults, h.ids, h.rows, h.sidecars, h.sidecarIds⟩

/-- Fewer tables. -/
theorem Files.filterSst (h : Files d) (p : Nat × List SSTEntry → Bool) :
    Files { d with sst := d.sst.filter p } :=
  ⟨h.faults, h.ids.sublist (List.filter_sublist.map _),
    fun f hf => h.rows f (List.mem_of_mem_filter hf),
    fun f hf => h.sidecars f (List.mem_of_mem_filter hf), h.sidecarIds⟩

/-- Fewer sidecars, none of them that of a table. -/
theorem Files.filterSidecars (h : Files d) {p : Nat × SSTableMeta → Bool}
    (hkeep : ∀ f ∈ d.sst, ∀ g ∈ d.sidecars, g.1 = f.1 → p g = true) :
    Files { d with sidecars := d.sidecars.filter p } := by
  refine ⟨h.faults, h.ids, h.rows, fun f hf => ?_,
    fun f hf => h.sidecarIds f (List.mem_of_mem_filter hf)⟩
  show (d.sidecars.filter p).lookup f.1 ≠ none
  rw [lookup_filter (hkeep f hf)]
  exact h.sidecars f hf

/-- A cut of the removal of the tables `old`, the oldest first, leaves the
newer ones of them. -/
theorem removeSteps_cut (new : Nat × List SSTEntry) (old : List (Nat × List SSTEntry)) :
    ∀ (D : Directory) (cut : Nat), D.disk.sst = old ++ [new] → Files D.disk →
      ∃ older newer, old = older ++ newer ∧
        (((removeSteps (old.map Prod.fst)).take cut).foldl FileStep.apply D).disk.sst =
          newer ++ [new] ∧
        (((removeSteps (old.map Prod.fst)).take cut).foldl FileStep.apply D).disk.wal =
          D.disk.wal ∧
        Files (((removeSteps (old.map Prod.fst)).take cut).foldl FileStep.apply D).disk := by
  induction old with
  | nil =>
    intro D cut hsst hfiles
    refine ⟨[], [], rfl, ?_⟩
    rw [List.map_nil, removeSteps, List.flatMap_nil, List.take_nil]
    exact ⟨hsst, rfl, hfiles⟩
  | cons f old ih =>
    intro D cut hsst hfiles
    have hhead : ∀ g ∈ old ++ [new], g.1 ≠ f.1 := by
      have hids := hfiles.ids
      rw [hsst, List.cons_append, List.map_cons, List.pairwise_cons] at hids
      intro g hg
      have := hids.1 g.1 (List.mem_map.mpr ⟨g, hg, rfl⟩)
      omega
    have hremoved : removeFile D.disk.sst f.1 = old ++ [new] := by
      rw [hsst]
      exact removeFile_cons hhead
    have hsteps : removeSteps ((f :: old).map Prod.fst) =
        .removeSst f.1 :: .removeMeta f.1 :: removeSteps (old.map Prod.fst) := rfl
    rw [hsteps]
    have hfirst : Files (FileStep.apply D (.removeSst f.1)).disk := hfiles.filterSst _
    rcases cut with _ | _ | cut
    · exact ⟨[], f :: old, rfl, hsst, rfl, hfiles⟩
    · exact ⟨[f], old, rfl, hremoved, rfl, hfirst⟩
    · have hsecond : Files (FileStep.apply (FileStep.apply D (.removeSst f.1))
          (.removeMeta f.1)).disk := by
        refine hfirst.filterSidecars fun g hg h _ heq => decide_eq_true ?_
        rw [heq]
        exact hhead g (hremoved ▸ hg)
      obtain ⟨older, newer, hold, hrest⟩ := ih (FileStep.apply (FileStep.apply D (.removeSst f.1))
        (.removeMeta f.1)) cut hremoved hsecond
      exact ⟨f :: older, newer, by rw [hold, List.cons_append], hrest⟩

end Steps

/-! ## Where the cut falls -/

section Cut

variable {sm : StateMachine}

/-- Both operations begin with a table under the next id, or do nothing. -/
theorem steps_cases (m : Maintenance) (sm : StateMachine) :
    m.steps sm = [] ∨ ∃ entries rest, m.steps sm = tableSteps sm.nextSstId entries ++ rest := by
  cases m with
  | flush =>
    show flushSteps sm = [] ∨ _
    unfold flushSteps Maintenance.steps flushSteps
    split_ifs
    · exact Or.inl rfl
    · exact Or.inr ⟨_, _, rfl⟩
  | compact =>
    unfold Maintenance.steps compactSteps
    dsimp only
    split_ifs
    · exact Or.inl rfl
    · split
      · exact Or.inl rfl
      · exact Or.inr ⟨_, _, rfl⟩

theorem crashDisk_of_nil {m : Maintenance} (h : m.steps sm = []) (tmp : List (Nat × TmpFile))
    (cut : Nat) : crashDisk sm tmp m cut = sm.disk := by
  rw [crashDisk, h, List.take_nil]
  rfl

/-- Up to the first rename nothing has changed. -/
theorem crashDisk_before_rename (m : Maintenance) (tmp : List (Nat × TmpFile)) {cut : Nat}
    (hcut : cut < 2) : crashDisk sm tmp m cut = sm.disk := by
  rcases steps_cases m sm with h | ⟨entries, rest, h⟩
  · exact crashDisk_of_nil h tmp cut
  · rw [crashDisk, h, take_tableSteps_append, show cut - 4 = 0 by omega, List.take_zero,
      List.foldl_nil, take_tableSteps, if_pos hcut]

/-- Between the two renames `open` finds a table without its sidecar. -/
theorem openStore_between_renames {m : Maintenance} (hsteps : m.steps sm ≠ []) {cut : Nat}
    (hcut : cut = 2 ∨ cut = 3) (hnone : sm.disk.sidecars.lookup sm.nextSstId = none)
    (tmp : List (Nat × TmpFile)) (threshold : Nat) :
    openStore threshold (crashDisk sm tmp m cut) = .error .notFound := by
  obtain ⟨entries, rest, h⟩ := (steps_cases m sm).resolve_left hsteps
  have hdisk : crashDisk sm tmp m cut =
      { sm.disk with sst := replaceFile sm.disk.sst sm.nextSstId entries } := by
    rw [crashDisk, h, take_tableSteps_append, show cut - 4 = 0 by omega, List.take_zero,
      List.foldl_nil, take_tableSteps, if_neg (by omega), if_pos (by omega)]
  have hmem : (sm.nextSstId, entries) ∈ (crashDisk sm tmp m cut).sst := by
    rw [hdisk]
    exact List.mem_append_right _ (List.mem_singleton_self _)
  refine openStore_error hmem ?_ threshold
  rw [hdisk]
  exact hnone

theorem heldBy_of_durable (hd : Durable sm) (key : String) :
    heldBy sm.disk key = sm.contents key := by
  rw [heldBy, hd]
  rfl

/-- From the second rename of a flush on, the rows are in the new table.  The
log may still say them again. -/
theorem flush_cut (h : InOrder sm) (hsteps : flushSteps sm ≠ []) (tmp : List (Nat × TmpFile))
    {cut : Nat} (hcut : 4 ≤ cut) :
    Files (crashDisk sm tmp .flush cut) ∧
      ∀ key, heldBy (crashDisk sm tmp .flush cut) key = sm.contents key := by
  have hnonempty : ¬sm.memtable.isEmpty = true := by
    intro hempty
    rw [flushSteps, if_pos hempty] at hsteps
    exact hsteps rfl
  obtain ⟨hfiles, hsst⟩ := h.files.withTable h.next (memtableEntries_wf sm.memtable)
  have htrace : tableTrace (withTable sm.disk sm.nextSstId (memtableEntries sm.memtable)) =
      sm.trace := by
    rw [tableTrace, hsst, List.flatMap_append, trace, tableTrace]
    simp only [List.flatMap_cons, List.flatMap_nil, List.append_nil]
  have hrow : ∀ k r, record (rowsOf (memtableEntries (replayWal sm.disk.wal).1)) k = some r →
      record sm.trace k = some r := by
    intro k r hr
    rw [record_memtable] at hr
    obtain ⟨e, he, rfl⟩ := Option.map_eq_some_iff.mp hr
    rw [trace, record_append, record_memtable, h.logged k e he]
    rfl
  have hdisk : crashDisk sm tmp .flush cut =
      ((([FileStep.truncateWal] : List FileStep).take (cut - 4)).foldl FileStep.apply
        (((tableSteps sm.nextSstId (memtableEntries sm.memtable)).take cut).foldl FileStep.apply
          ⟨sm.disk, tmp⟩)).disk := by
    rw [crashDisk, Maintenance.steps, flushSteps, if_neg hnonempty, take_tableSteps_append]
  have htable := take_tableSteps ⟨sm.disk, tmp⟩ sm.nextSstId (memtableEntries sm.memtable) cut
  rw [if_neg (by omega), if_neg (by omega)] at htable
  rw [hdisk]
  generalize ((tableSteps sm.nextSstId (memtableEntries sm.memtable)).take cut).foldl
    FileStep.apply ⟨sm.disk, tmp⟩ = D at htable ⊢
  cases cut - 4 with
  | zero =>
    rw [List.take_zero, List.foldl_nil, htable]
    refine ⟨hfiles, fun key => ?_⟩
    rw [heldBy, htrace]
    exact lastWrite_append_of_recorded hrow key
  | succ k =>
    rw [List.take_succ_cons, List.take_nil, List.foldl_cons, List.foldl_nil]
    show Files { D.disk with wal := [] } ∧ ∀ key, heldBy { D.disk with wal := [] } key = _
    rw [htable]
    refine ⟨hfiles.truncate, fun key => ?_⟩
    show lastWrite (tableTrace (withTable sm.disk sm.nextSstId (memtableEntries sm.memtable)) ++
      []) key = sm.contents key
    rw [htrace, List.append_nil]
    rfl

/-- The rows of a merge are no tombstones. -/
theorem compactedEntries_ne_none {rows : List SSTEntry}
    (htomb : ∀ e ∈ rows, e.tombstone = e.value.isNone) :
    ∀ w ∈ rowsOf (compactedEntries (mergeRows ∅ rows)), w.2 ≠ none := by
  intro w hw
  obtain ⟨e, he, rfl⟩ := List.mem_map.mp hw
  obtain ⟨hmem, hlive⟩ := List.mem_filter.mp he
  have := (mergedEntries_wf htomb).tombstone e hmem
  cases hv : e.value <;> simp_all [SSTEntry.shown]

/-- From the second rename of a compaction on, the merged table stands over the
newer part of the tables it was made from. -/
theorem compact_cut (h : InOrder sm) (hsteps : compactSteps sm ≠ [])
    (tmp : List (Nat × TmpFile)) {cut : Nat} (hcut : 4 ≤ cut) :
    Files (crashDisk sm tmp .compact cut) ∧
      ∀ key, heldBy (crashDisk sm tmp .compact cut) key = heldBy sm.disk key := by
  have hmany : ¬sm.sstables.length < 2 := by
    intro hfew
    rw [compactSteps, if_pos hfew] at hsteps
    exact hsteps rfl
  obtain ⟨hrows, hlast⟩ := compactedEntries_ok h.readable.tombstones
  have hlive := compactedEntries_ne_none h.readable.tombstones
  set entries := compactedEntries (mergeRows ∅ (tableRows sm.disk)) with hentries
  obtain ⟨hfiles, hsst⟩ := h.files.withTable h.next hrows
  have hdisk : crashDisk sm tmp .compact cut =
      (((removeSteps (sm.disk.sst.map Prod.fst)).take (cut - 4)).foldl FileStep.apply
        (((tableSteps sm.nextSstId entries).take cut).foldl FileStep.apply
          ⟨sm.disk, tmp⟩)).disk := by
    rw [crashDisk, Maintenance.steps, compactSteps, if_neg hmany, mergeTables_ok h.readable]
    dsimp only
    rw [take_tableSteps_append, h.paths]
  have htable := take_tableSteps ⟨sm.disk, tmp⟩ sm.nextSstId entries cut
  rw [if_neg (by omega), if_neg (by omega)] at htable
  obtain ⟨older, newer, hold, hsst', hwal, hfiles'⟩ := removeSteps_cut (sm.nextSstId, entries)
    sm.disk.sst (((tableSteps sm.nextSstId entries).take cut).foldl FileStep.apply ⟨sm.disk, tmp⟩)
    (cut - 4) (by rw [htable]; exact hsst) (by rw [htable]; exact hfiles)
  rw [← hdisk] at hsst' hwal hfiles'
  refine ⟨hfiles', fun key => ?_⟩
  have hwal' : (crashDisk sm tmp .compact cut).wal = sm.disk.wal := by
    rw [hwal, htable]
    rfl
  have hsplit : tableTrace sm.disk =
      older.flatMap (fun f => rowsOf f.2) ++ newer.flatMap (fun f => rowsOf f.2) := by
    rw [tableTrace, hold, List.flatMap_append]
  have hmerge : ∀ k, lastWrite (rowsOf entries) k =
      lastWrite (older.flatMap (fun f => rowsOf f.2) ++ newer.flatMap (fun f => rowsOf f.2)) k := by
    intro k
    rw [← hsplit, ← rowsOf_tableRows]
    exact hlast k
  rw [heldBy, heldBy, hwal']
  refine lastWrite_append_congr (fun k => ?_) _ key
  rw [tableTrace, hsst', List.flatMap_append, hsplit]
  simp only [List.flatMap_cons, List.flatMap_nil, List.append_nil]
  exact lastWrite_merge hmerge hlive k

end Cut

/-! ## Completed operations -/

/-- The line of the memtable log for a row. -/
def walOpOf (key : String) : Option String → WalOp
  | some value => .put key value
  | none => .delete key

theorem walOpOf_logs (key : String) (value : Option String) :
    WalOp.logs (walOpOf key value) key value := by
  cases value <;> exact fun _ => rfl

/-- `set` and `delete` up to their flush: the row is logged and inserted. -/
def logRow (key : String) (value : Option String) : Io Unit := do
  appendWal (walOpOf key value)
  modify (insertRow key value)

/-- `set` and `delete` are `logRow`, and a flush above the threshold. -/
theorem write_eq_logRow (key : String) (value : Option String) :
    write key value (walOpOf key value) = (do
      logRow key value
      let sm ← getThe StateMachine
      if sm.memtableSizeThreshold ≤ sm.memtableBytes then flush) := by
  rw [write, logRow, bind_assoc]

section Completed

variable {sm : StateMachine}

theorem logRow_inOrder (h : InOrder sm) (key : String) (value : Option String) :
    ∃ sm', logRow key value sm = (.ok (), sm') ∧ InOrder sm' ∧ (Durable sm → Durable sm') := by
  have hop := walOpOf_logs key value
  rw [logRow, bind_ok (appendWal_ok h.files.faults _)]
  refine ⟨_, rfl, ⟨⟨h.files.faults, h.files.ids, h.files.rows, h.files.sidecars,
    h.files.sidecarIds⟩, h.paths, h.next, fun k e he => ?_⟩, fun hd => ?_⟩
  · have hrow : ((replayWal sm.disk.wal).1.insert key ⟨value⟩)[k]? = some e := by
      rw [← hop, ← replayWal_append]
      exact he
    show (sm.memtable.insert key ⟨value⟩)[k]? = some e
    rw [Std.TreeMap.getElem?_insert] at hrow ⊢
    split_ifs at hrow ⊢
    · exact hrow
    · exact h.logged k e hrow
  · show (replayWal (sm.disk.wal ++ [walOpOf key value])).1 = sm.memtable.insert key ⟨value⟩
    rw [replayWal_append, hop, hd]

theorem flush_inOrder (h : InOrder sm) :
    ∃ sm', flush sm = (.ok (), sm') ∧ InOrder sm' ∧ (Durable sm → Durable sm') := by
  rw [flush, bind_getThe]
  by_cases hempty : sm.memtable.isEmpty = true
  · rw [if_pos hempty]
    exact ⟨sm, rfl, h, id⟩
  · rw [if_neg hempty, bind_ok (writeTable_ok h.files.faults _), bind_modify, bind_modify,
      truncateWal_ok (by exact h.files.faults)]
    obtain ⟨hfiles, hsst⟩ := h.files.withTable h.next (memtableEntries_wf sm.memtable)
    refine ⟨_, rfl, ⟨hfiles.truncate, ?_, ?_, fun k e he => ?_⟩, fun _ => rfl⟩
    · show (sm.sstables ++ [_]).map SSTableHandle.path = (withTable sm.disk _ _).sst.map Prod.fst
      rw [hsst, List.map_append, List.map_append, h.paths]
      rfl
    · show ∀ f ∈ (withTable sm.disk _ _).sst, f.1 < sm.nextSstId + 1
      rw [hsst]
      intro f hf
      rcases List.mem_append.mp hf with hf | hf
      · have := h.next f hf
        omega
      · rw [List.mem_singleton.mp hf]
        exact Nat.lt_succ_self _
    · have hnone : (replayWal []).1[k]? = none := Std.TreeMap.getElem?_emptyc
      rw [hnone] at he
      cases he

theorem write_inOrder (h : InOrder sm) (key : String) (value : Option String) :
    ∃ sm', write key value (walOpOf key value) sm = (.ok (), sm') ∧ InOrder sm' ∧
      (Durable sm → Durable sm') := by
  obtain ⟨sm₁, hlog, h₁, hd₁⟩ := logRow_inOrder h key value
  rw [write_eq_logRow, bind_ok hlog, bind_getThe]
  split
  · obtain ⟨sm₂, hflush, h₂, hd₂⟩ := flush_inOrder h₁
    exact ⟨sm₂, hflush, h₂, fun hd => hd₂ (hd₁ hd)⟩
  · exact ⟨sm₁, rfl, h₁, hd₁⟩

theorem compact_inOrder (h : InOrder sm) :
    ∃ sm', compact sm = (.ok (), sm') ∧ InOrder sm' ∧ (Durable sm → Durable sm') := by
  rw [compact, bind_getThe]
  by_cases hfew : sm.sstables.length < 2
  · rw [if_pos hfew]
    exact ⟨sm, rfl, h, id⟩
  · have hmerge : pureResult (mergeTables sm.disk sm.sstables) sm =
        (.ok (mergeRows ∅ (tableRows sm.disk)), sm) := by
      rw [pureResult, mergeTables_ok h.readable]
    rw [if_neg hfew, bind_ok hmerge, bind_ok (writeTable_ok h.files.faults _), bind_modify,
      forM_removeTable_ok _ (by exact h.files.faults)]
    obtain ⟨hrows, -⟩ := compactedEntries_ok h.readable.tombstones
    obtain ⟨hfiles, hsst⟩ := h.files.withTable h.next hrows
    have hfresh : sm.nextSstId ∉ sm.sstables.map SSTableHandle.path := by
      rw [h.paths]
      intro hmem
      obtain ⟨f, hf, heq⟩ := List.mem_map.mp hmem
      have := h.next f hf
      omega
    have hold : ∀ f ∈ sm.disk.sst, f.1 ∈ sm.sstables.map SSTableHandle.path := by
      rw [h.paths]
      exact fun f hf => List.mem_map.mpr ⟨f, hf, rfl⟩
    have hone := filter_oldPaths hold hfresh (compactedEntries (mergeRows ∅ (tableRows sm.disk)))
    rw [← hsst] at hone
    refine ⟨_, rfl, ⟨?_, ?_, ?_, h.logged⟩, id⟩
    · refine (hfiles.filterSst _).filterSidecars fun f hf g _ heq => ?_
      rw [heq]
      exact (List.mem_filter.mp hf).2
    · exact (congrArg (List.map Prod.fst) hone).symm
    · show ∀ f ∈ (withTable sm.disk _ _).sst.filter _, f.1 < sm.nextSstId + 1
      rw [hone]
      intro f hf
      rw [List.mem_singleton.mp hf]
      exact Nat.lt_succ_self _

theorem clearForSnapshot_inOrder (h : InOrder sm) :
    ∃ sm', clearForSnapshot sm = (.ok (), sm') ∧ InOrder sm' ∧ sm'.disk.wal = [] ∧
      Durable sm' := by
  rw [clearForSnapshot, bind_modify, bind_ok (truncateWal_ok (by exact h.files.faults)),
    bind_getThe, bind_ok (forM_removeTable_ok _ (by exact h.files.faults))]
  have hnil : sm.disk.sst.filter
      (fun f => decide (f.1 ∉ sm.sstables.map SSTableHandle.path)) = [] := by
    rw [List.filter_eq_nil_iff, h.paths]
    intro f hf hout
    exact of_decide_eq_true hout (List.mem_map.mpr ⟨f, hf, rfl⟩)
  refine ⟨_, rfl, ⟨?_, ?_, ?_, fun k e he => ?_⟩, rfl, rfl⟩
  · refine (h.files.truncate.filterSst _).filterSidecars fun f hf => ?_
    exact absurd (hnil ▸ hf) List.not_mem_nil
  · exact (congrArg (List.map Prod.fst) hnil).symm
  · exact fun f hf => absurd (hnil ▸ hf) List.not_mem_nil
  · exact he

theorem installSnapshot_inOrder (h : InOrder sm) (data : Std.TreeMap String String) :
    ∃ sm', installSnapshot data sm = (.ok (), sm') ∧ InOrder sm' := by
  obtain ⟨sm₁, hclear, h₁, hwal, -⟩ := clearForSnapshot_inOrder h
  rw [installSnapshot, bind_ok hclear, bind_modify]
  obtain ⟨bytes, memtable, hframe⟩ :=
    foldl_installRow_frame data.toList { sm₁ with memtableBytes := 0 }
  refine ⟨data.toList.foldl installRow { sm₁ with memtableBytes := 0 }, rfl, ?_⟩
  rw [hframe]
  refine ⟨h₁.files, h₁.paths, h₁.next, fun k e he => ?_⟩
  have hnone : (replayWal sm₁.disk.wal).1[k]? = none := by
    rw [hwal]
    exact Std.TreeMap.getElem?_emptyc
  rw [hnone] at he
  cases he

theorem forM_applyTxOp_inOrder (ops : List TxOp) :
    ∀ {sm : StateMachine}, InOrder sm →
      ∃ sm', (ops.forM applyTxOp) sm = (.ok (), sm') ∧ InOrder sm' ∧
        (Durable sm → Durable sm') := by
  induction ops with
  | nil => exact fun h => ⟨_, rfl, h, id⟩
  | cons op ops ih =>
    intro sm h
    have hop : ∃ sm', applyTxOp op sm = (.ok (), sm') ∧ InOrder sm' ∧
        (Durable sm → Durable sm') := by
      cases op with
      | put key value =>
        obtain ⟨sm', heq, hsm'⟩ := write_inOrder h key (some value)
        exact ⟨sm', ignoreErr_ok heq, hsm'⟩
      | delete key =>
        obtain ⟨sm', heq, hsm'⟩ := write_inOrder h key none
        exact ⟨sm', ignoreErr_ok heq, hsm'⟩
    obtain ⟨sm₁, heq₁, h₁, hd₁⟩ := hop
    obtain ⟨sm₂, heq₂, h₂, hd₂⟩ := ih h₁
    refine ⟨sm₂, ?_, h₂, fun hd => hd₂ (hd₁ hd)⟩
    rw [List.forM, bind_ok heq₁]
    exact heq₂

theorem decideTx_inOrder (h : InOrder sm) (txId : String) (decision : TxDecision) :
    ∃ sm', decideTx txId decision sm = (.ok (), sm') ∧ InOrder sm' ∧
      (Durable sm → Durable sm') := by
  rw [decideTx, bind_getThe]
  cases sm.pendingTxs[txId]? with
  | none => exact ⟨sm, rfl, h, id⟩
  | some tx =>
    set sm₁ : StateMachine := { sm with pendingTxs := sm.pendingTxs.erase txId }
    have h₁ : InOrder sm₁ := ⟨h.files, h.paths, h.next, h.logged⟩
    dsimp only
    rw [bind_modify]
    cases decision with
    | commit =>
      obtain ⟨sm₂, heq, h₂, hd₂⟩ := forM_applyTxOp_inOrder tx.ops h₁
      exact ⟨sm₂, heq, h₂, hd₂⟩
    | abort => exact ⟨sm₁, rfl, h₁, id⟩

/-- A completed operation succeeds and leaves the store in order. -/
theorem exec_inOrder (h : InOrder sm) (op : Op) :
    ∃ sm', exec sm op = .ok sm' ∧ InOrder sm' ∧ (Durable sm → Durable sm') := by
  cases op with
  | set key value =>
    obtain ⟨sm', heq, hsm'⟩ := write_inOrder h key (some value)
    exact ⟨sm', by rw [exec, set, ← walOpOf, heq]; rfl, hsm'⟩
  | delete key =>
    obtain ⟨sm', heq, hsm'⟩ := write_inOrder h key none
    exact ⟨sm', by rw [exec, delete, ← walOpOf, heq]; rfl, hsm'⟩
  | flush =>
    obtain ⟨sm', heq, hsm'⟩ := flush_inOrder h
    exact ⟨sm', by rw [exec, heq]; rfl, hsm'⟩
  | compact =>
    obtain ⟨sm', heq, hsm'⟩ := compact_inOrder h
    exact ⟨sm', by rw [exec, heq]; rfl, hsm'⟩
  | beginTx txId ops nowUnixMs =>
    exact ⟨_, rfl, ⟨h.files, h.paths, h.next, h.logged⟩, id⟩
  | decideTx txId decision =>
    obtain ⟨sm', heq, hsm'⟩ := decideTx_inOrder h txId decision
    exact ⟨sm', by rw [exec, heq]; rfl, hsm'⟩
  | reopen =>
    obtain ⟨sm', heq, hsm', hd, -⟩ := openStore_files h.files sm.memtableSizeThreshold
    exact ⟨sm', heq, hsm', fun _ => hd⟩

end Completed

/-! ## Runs with crashes -/

/-- A completed call, the part of `set` or `delete` before its flush, or a
crash and the `open` that follows it. -/
inductive StoreEvent where
  | op (op : Op)
  | logRow (key : String) (value : Option String)
  | clearForSnapshot
  | installSnapshot (data : Std.TreeMap String String)
  | crash (m : Maintenance) (cut : Nat) (tmp : List (Nat × TmpFile)) (threshold : Nat)

/-- The store after an event; `none` when a call or `open` fails. -/
def storeStep (sm : StateMachine) : StoreEvent → Option StateMachine
  | .op op => (exec sm op).toOption
  | .logRow key value => (finish (StateMachine.logRow key value sm)).toOption
  | .clearForSnapshot => (finish (StateMachine.clearForSnapshot sm)).toOption
  | .installSnapshot data => (finish (StateMachine.installSnapshot data sm)).toOption
  | .crash m cut tmp threshold => (openStore threshold (crashDisk sm tmp m cut)).toOption

/-- The crash does not fall between the two renames of a new table; and the
memtable is what its log replays, or the flush has its table on disk. -/
def Survives (sm : StateMachine) : StoreEvent → Prop
  | .crash m cut _ _ =>
      (m.steps sm = [] ∨ cut < 2 ∨ 4 ≤ cut) ∧
        (Durable sm ∨ m = .flush ∧ m.steps sm ≠ [] ∧ 4 ≤ cut)
  | _ => True

/-- `open` succeeds after such a crash and finds the contents again. -/
theorem openStore_after_crash {sm : StateMachine} (h : InOrder sm) {m : Maintenance} {cut : Nat}
    {tmp : List (Nat × TmpFile)} {threshold : Nat}
    (hsurvives : Survives sm (.crash m cut tmp threshold)) :
    ∃ sm', openStore threshold (crashDisk sm tmp m cut) = .ok sm' ∧ InOrder sm' ∧ Durable sm' ∧
      ∀ key, sm'.contents key = sm.contents key := by
  have hfiles : Files (crashDisk sm tmp m cut) ∧
      ∀ key, heldBy (crashDisk sm tmp m cut) key = sm.contents key := by
    obtain ⟨hwhere, hlogged⟩ := hsurvives
    by_cases hsame : m.steps sm = [] ∨ cut < 2
    · -- the directory is the one before the operation, so the log must have it all
      have hdisk : crashDisk sm tmp m cut = sm.disk := by
        rcases hsame with hnil | hcut
        · exact crashDisk_of_nil hnil tmp cut
        · exact crashDisk_before_rename m tmp hcut
      have hd : Durable sm := by
        rcases hlogged with hd | ⟨-, hsteps, hcut⟩
        · exact hd
        · rcases hsame with hnil | hlt
          · exact absurd hnil hsteps
          · omega
      rw [hdisk]
      exact ⟨h.files, heldBy_of_durable hd⟩
    · obtain ⟨hsteps, hlate⟩ := not_or.mp hsame
      have hcut : 4 ≤ cut := (hwhere.resolve_left hsteps).resolve_left hlate
      cases m with
      | flush => exact flush_cut h hsteps tmp hcut
      | compact =>
        have hd : Durable sm := hlogged.resolve_right fun hc => by cases hc.1
        obtain ⟨hfiles, hheld⟩ := compact_cut h hsteps tmp hcut
        exact ⟨hfiles, fun key => (hheld key).trans (heldBy_of_durable hd key)⟩
  obtain ⟨sm', hopen, h', hd', hcontents⟩ := openStore_files hfiles.1 threshold
  exact ⟨sm', hopen, h', hd', fun key => (hcontents key).trans (hfiles.2 key)⟩

/-- One event of such a run. -/
theorem storeStep_inOrder {sm : StateMachine} (h : InOrder sm) {e : StoreEvent}
    (hsurvives : Survives sm e) :
    ∃ sm', storeStep sm e = some sm' ∧ InOrder sm' ∧
      ((∀ data, e ≠ .installSnapshot data) → Durable sm → Durable sm') := by
  cases e with
  | op op =>
    obtain ⟨sm', heq, h', hd⟩ := exec_inOrder h op
    exact ⟨sm', by rw [storeStep, heq]; rfl, h', fun _ => hd⟩
  | logRow key value =>
    obtain ⟨sm', heq, h', hd⟩ := logRow_inOrder h key value
    exact ⟨sm', by rw [storeStep, heq]; rfl, h', fun _ => hd⟩
  | clearForSnapshot =>
    obtain ⟨sm', heq, h', -, hd⟩ := clearForSnapshot_inOrder h
    exact ⟨sm', by rw [storeStep, heq]; rfl, h', fun _ _ => hd⟩
  | installSnapshot data =>
    obtain ⟨sm', heq, h'⟩ := installSnapshot_inOrder h data
    exact ⟨sm', by rw [storeStep, heq]; rfl, h', fun hne => absurd rfl (hne data)⟩
  | crash m cut tmp threshold =>
    obtain ⟨sm', heq, h', hd, -⟩ := openStore_after_crash h hsurvives
    exact ⟨sm', by rw [storeStep, heq]; rfl, h', fun _ _ => hd⟩

/-- No event of such a run fails. -/
theorem run_inOrder {es : List StoreEvent} :
    ∀ {sm : StateMachine}, InOrder sm → Along storeStep Survives sm es →
      ∃ sm', Run.run storeStep sm es = some sm' ∧ InOrder sm' ∧
        ((∀ data, .installSnapshot data ∉ es) → Durable sm → Durable sm') := by
  induction es with
  | nil => exact fun h _ => ⟨_, rfl, h, fun _ hd => hd⟩
  | cons e es ih =>
    rintro sm h ⟨hsurvives, hrest⟩
    obtain ⟨sm₁, hstep, h₁, hd₁⟩ := storeStep_inOrder h hsurvives
    obtain ⟨sm₂, hrun, h₂, hd₂⟩ := ih h₁ (hrest sm₁ hstep)
    refine ⟨sm₂, ?_, h₂, fun hnone hd => ?_⟩
    · rw [Run.run, hstep]
      exact hrun
    · refine hd₂ (fun data hmem => hnone data (List.mem_cons_of_mem e hmem)) (hd₁ ?_ hd)
      rintro data rfl
      exact hnone data List.mem_cons_self

/-- In every run from an empty directory whose crashes meet `Survives`, no
`open` fails, and a crash inside `flush` or `compact` of the last store that
meets it leaves the data of that store.  Without `install_snapshot` the
memtable is always what its log replays.  Between the two renames of a new
table, `open` fails unless a sidecar of the same id was left behind. -/
theorem crash_keeps_contents {threshold : Nat} {sm₀ : StateMachine}
    (hempty : openStore threshold Disk.empty = .ok sm₀) {es : List StoreEvent}
    (halong : Along storeStep Survives sm₀ es) :
    ∃ sm, Run.run storeStep sm₀ es = some sm ∧
      ((∀ data, .installSnapshot data ∉ es) → Durable sm) ∧
      ∀ m cut tmp threshold',
        (Survives sm (.crash m cut tmp threshold') →
          ∃ sm' data data', openStore threshold' (crashDisk sm tmp m cut) = .ok sm' ∧
            sm.snapshotData = .ok data ∧ sm'.snapshotData = .ok data' ∧
            ∀ key : String, data'[key]? = data[key]?) ∧
        (m.steps sm ≠ [] → cut = 2 ∨ cut = 3 →
          sm.disk.sidecars.lookup sm.nextSstId = none →
          openStore threshold' (crashDisk sm tmp m cut) = .error .notFound) := by
  obtain ⟨sm', hopen, h₀, hd₀, -⟩ := openStore_files Files.empty threshold
  obtain rfl : sm₀ = sm' := Except.ok.inj (hempty.symm.trans hopen)
  obtain ⟨sm, hrun, h, hd⟩ := run_inOrder h₀ halong
  refine ⟨sm, hrun, fun hnone => hd hnone hd₀, fun m cut tmp threshold' => ⟨fun hs => ?_, ?_⟩⟩
  · obtain ⟨sm', hopen', h', -, hcontents⟩ := openStore_after_crash h hs
    obtain ⟨data, hdata, hget⟩ := h.readable.snapshotData
    obtain ⟨data', hdata', hget'⟩ := h'.readable.snapshotData
    refine ⟨sm', data, data', hopen', hdata, hdata', fun key => ?_⟩
    rw [hget key, hget' key, hcontents key]
  · exact fun hsteps hcut hnone => openStore_between_renames hsteps hcut hnone tmp threshold'

/-- A key is set, the flush is killed after its second rename, and a compaction
follows. -/
theorem crash_keeps_contents_two_tables :
    ∃ sm₀ sm, openStore 1024 Disk.empty = .ok sm₀ ∧
      Run.run storeStep sm₀ [.op (.set "k" "v"), .crash .flush 4 [] 1024, .op .flush] = some sm ∧
      sm.sstables.length = 2 ∧
      ∃ sm' data data', openStore 1024 (crashDisk sm [] .compact 5) = .ok sm' ∧
        sm.snapshotData = .ok data ∧ sm'.snapshotData = .ok data' ∧
        ∀ key : String, data'[key]? = data[key]? := by
  obtain ⟨sm₀, hempty⟩ : ∃ sm₀, openStore 1024 Disk.empty = .ok sm₀ := ⟨_, rfl⟩
  obtain rfl := Except.ok.inj hempty
  have halong : Along storeStep Survives
      { memtableSizeThreshold := 1024
        memtable := ∅
        memtableBytes := 0
        sstables := []
        nextSstId := 0
        pendingTxs := ∅
        disk := Disk.empty }
      [.op (.set "k" "v"), .crash .flush 4 [] 1024, .op .flush] := by
    refine ⟨trivial, fun s hs => ?_⟩
    obtain rfl := Option.some.inj hs
    exact ⟨⟨Or.inr (Or.inr (Nat.le_refl 4)), Or.inl rfl⟩, fun _ _ => ⟨trivial, fun _ _ => trivial⟩⟩
  obtain ⟨sm, hrun, hdurable, hcrash⟩ := crash_keeps_contents hempty halong
  have htables : sm.sstables.length = 2 := by
    obtain rfl := Option.some.inj hrun
    rfl
  refine ⟨_, sm, hempty, hrun, htables, (hcrash .compact 5 [] 1024).1 ⟨?_, ?_⟩⟩
  · exact Or.inr (Or.inr (by omega))
  · exact Or.inl (hdurable (by simp))

/-- A flush that is killed between the two renames leaves a directory that
`open` refuses. -/
theorem open_fails_between_renames :
    ∃ sm data, run 1024 [.set "k" "v"] = .ok sm ∧ sm.snapshotData = .ok data ∧
      data["k"]? = some "v" ∧
      openStore 1024 (crashDisk sm [] .flush 2) = .error .notFound := by
  refine ⟨_, _, rfl, rfl, ?_, rfl⟩
  decide

end StateMachine

end OxideKv
