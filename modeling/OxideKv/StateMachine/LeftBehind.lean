import OxideKv.StateMachine.FaultyStore

/-!
# Tables that a removal leaves behind

`compact` and `clear_for_snapshot` remove the files of the old tables and drop
the results.  A running store does not notice a removal that fails, since it has
no handle on the table any more; the next `open` lists the directory and takes
every `.sst` file it finds for a table.

The run in which every removal succeeds is the run that the store itself sees:
the two differ in the directory only (`LeftBehind`).  A sidecar that stays
does no harm.  A table does, in four ways:

* its sidecar is gone, and `open` fails;
* it has a row that a merge has dropped the tombstone of;
* a later merge drops the tombstone of one of its rows;
* `clear_for_snapshot` starts the ids from zero again, and the table is newer
  than what is written afterwards.

`Harmless` excludes the four, and `leftovers_harmless` is about every run whose
calls meet it.
-/

namespace OxideKv

open Std Fallible LastWrite Run

namespace StateMachine

/-! ## Removals that fail -/

/-- The outcomes of the removals of `paths`, where the `.sst` files of `keepSst`
and the sidecars of `keepMeta` stay. -/
def removals (keepSst keepMeta paths : List Nat) : List Bool :=
  paths.flatMap fun p => [decide (p ∈ keepSst), decide (p ∈ keepMeta)]

/-- The files that stay. -/
def keepFiles {α : Type} (paths keep : List Nat) (files : List (Nat × α)) : List (Nat × α) :=
  files.filter fun f => f.1 ∉ paths ∨ f.1 ∈ keep

/-- The directory after the removals of `paths`. -/
def afterRemovals (paths keepSst keepMeta : List Nat) (d : Disk) : Disk :=
  { d with
    sst := keepFiles paths keepSst d.sst
    sidecars := keepFiles paths keepMeta d.sidecars }

section Outcomes

variable {sm : StateMachine}

theorem removeTable_withFaults (sst sidecar : Bool) (rest : List Bool) (path : Nat)
    (sm : StateMachine) :
    removeTable path (withFaults (sst :: sidecar :: rest) sm) =
      (.ok (), withFaults rest { sm with
        disk := { sm.disk with
          sst := if sst then sm.disk.sst else removeFile sm.disk.sst path
          sidecars := if sidecar then sm.disk.sidecars else removeFile sm.disk.sidecars path } }) := by
  cases sst <;> cases sidecar <;> rfl

theorem keepFiles_cons {α : Type} (path : Nat) (paths keep : List Nat) (files : List (Nat × α)) :
    keepFiles paths keep (if decide (path ∈ keep) then files else removeFile files path) =
      keepFiles (path :: paths) keep files := by
  unfold keepFiles removeFile
  by_cases hkeep : path ∈ keep
  · rw [if_pos (decide_eq_true hkeep)]
    refine List.filter_congr fun f _ => ?_
    by_cases hf : f.1 = path
    · simp [hf, hkeep]
    · simp [hf]
  · rw [if_neg (by simpa using hkeep), List.filter_filter]
    refine List.filter_congr fun f _ => ?_
    by_cases hf : f.1 = path
    · simp [hf, hkeep]
    · simp [hf]

theorem forM_removeTable (keepSst keepMeta paths : List Nat) :
    ∀ sm : StateMachine,
      (paths.forM removeTable) (withFaults (removals keepSst keepMeta paths) sm) =
        (.ok (), withFaults [] { sm with
          disk := afterRemovals paths keepSst keepMeta sm.disk }) := by
  induction paths with
  | nil =>
    intro sm
    simp [List.forM, removals, afterRemovals, keepFiles]
    rfl
  | cons path paths ih =>
    intro sm
    have hfirst := removeTable_withFaults (decide (path ∈ keepSst)) (decide (path ∈ keepMeta))
      (removals keepSst keepMeta paths) path sm
    rw [List.forM, removals, List.flatMap_cons]
    rw [bind_ok (by exact hfirst), ih]
    simp only [afterRemovals, keepFiles_cons]

/-- The paths of the tables in use. -/
def paths (sm : StateMachine) : List Nat := sm.sstables.map SSTableHandle.path

/-- `compact` up to the removals, when there is something to merge. -/
def compacted (entries : List SSTEntry) (keepSst keepMeta : List Nat) (sm : StateMachine) :
    StateMachine :=
  { sm with
    sstables := [{ path := sm.nextSstId, sstMeta := sidecarOf sm.nextSstId entries }]
    nextSstId := sm.nextSstId + 1
    disk := afterRemovals sm.paths keepSst keepMeta (withTable sm.disk sm.nextSstId entries) }

theorem compact_withFaults {merged : TreeMap String SSTEntry} (hmany : ¬sm.sstables.length < 2)
    (hmerge : mergeTables sm.disk sm.sstables = .ok merged) (keepSst keepMeta : List Nat) :
    compact (withFaults ([false, false, false, false] ++ removals keepSst keepMeta sm.paths) sm) =
      (.ok (), withFaults [] (compacted (compactedEntries merged) keepSst keepMeta sm)) := by
  set faults := removals keepSst keepMeta sm.paths with hfaults
  rw [compact, bind_getThe, if_neg (by exact hmany)]
  have hmerge' : pureResult (mergeTables sm.disk sm.sstables)
      (withFaults ([false, false, false, false] ++ faults) sm) =
        (.ok merged, withFaults ([false, false, false, false] ++ faults) sm) := by
    rw [pureResult, hmerge]
  rw [bind_ok (by exact hmerge')]
  have htable : writeTable (compactedEntries merged)
      (withFaults ([false, false, false, false] ++ faults) sm) =
        (.ok { path := sm.nextSstId, sstMeta := sidecarOf sm.nextSstId (compactedEntries merged) },
          withFaults faults { sm with
            nextSstId := sm.nextSstId + 1
            disk := withTable sm.disk sm.nextSstId (compactedEntries merged) }) := rfl
  rw [bind_ok htable, bind_modify]
  exact forM_removeTable keepSst keepMeta sm.paths { sm with
    sstables := [{
      path := sm.nextSstId, sstMeta := sidecarOf sm.nextSstId (compactedEntries merged) }]
    nextSstId := sm.nextSstId + 1
    disk := withTable sm.disk sm.nextSstId (compactedEntries merged) }

/-- `clear_for_snapshot`. -/
def cleared (keepSst keepMeta : List Nat) (sm : StateMachine) : StateMachine :=
  { sm with
    memtable := ∅
    memtableBytes := 0
    sstables := []
    nextSstId := 0
    pendingTxs := ∅
    disk := afterRemovals sm.paths keepSst keepMeta { sm.disk with wal := [] } }

theorem clearForSnapshot_withFaults (keepSst keepMeta : List Nat) (sm : StateMachine) :
    clearForSnapshot
        (withFaults ([false, false, false] ++ removals keepSst keepMeta sm.paths) sm) =
      (.ok (), withFaults [] (cleared keepSst keepMeta sm)) := by
  set faults := removals keepSst keepMeta sm.paths with hfaults
  rw [clearForSnapshot, bind_modify]
  have htruncate : truncateWal { withFaults ([false, false, false] ++ faults) sm with
      memtable := ∅, memtableBytes := 0 } =
        (.ok (), withFaults faults { sm with
          memtable := ∅
          memtableBytes := 0
          disk := { sm.disk with wal := [] } }) := rfl
  rw [bind_ok htruncate, bind_getThe]
  have hremove := forM_removeTable keepSst keepMeta sm.paths { sm with
    memtable := ∅
    memtableBytes := 0
    disk := { sm.disk with wal := [] } }
  rw [bind_ok (by exact hremove)]
  rfl

end Outcomes

/-! ## Calls -/

/-- A call on the store.  The lists are the tables whose `.sst` file and whose
sidecar a removal of the call fails on; every other file operation succeeds. -/
inductive StoreCall where
  | set (key value : String)
  | delete (key : String)
  | flush
  | compact (keepSst keepMeta : List Nat)
  | clearForSnapshot (keepSst keepMeta : List Nat)

/-- The store after a call; `none` when the call fails. -/
def callStep (sm : StateMachine) : StoreCall → Option StateMachine
  | .set key value => (finish (StateMachine.set key value sm)).toOption
  | .delete key => (finish (StateMachine.delete key sm)).toOption
  | .flush => (finish (StateMachine.flush sm)).toOption
  | .compact keepSst keepMeta =>
      (finish (StateMachine.compact (withFaults
        ([false, false, false, false] ++ removals keepSst keepMeta sm.paths) sm))).toOption.map
          (withFaults [])
  | .clearForSnapshot keepSst keepMeta =>
      (finish (StateMachine.clearForSnapshot (withFaults
        ([false, false, false] ++ removals keepSst keepMeta sm.paths) sm))).toOption.map
          (withFaults [])

/-- The same call, with no removal that fails. -/
def StoreCall.allRemoved : StoreCall → StoreCall
  | .compact _ _ => .compact [] []
  | .clearForSnapshot _ _ => .clearForSnapshot [] []
  | call => call

/-- The rows of some tables as a trace. -/
def traceOf (tables : List (Nat × List SSTEntry)) : List (String × Option String) :=
  tables.flatMap fun f => rowsOf f.2

/-- The `.sst` files that the call leaves without a handle. -/
def leftTables (sm : StateMachine) (keepSst : List Nat) : List (Nat × List SSTEntry) :=
  keepFiles sm.paths keepSst sm.disk.sst

/-- A merge leaves tables with their sidecars only, and a key that they show is
one that the merged tables show too, or that the log has a row for.
`clear_for_snapshot` leaves no table. -/
def Harmless (sm : StateMachine) : StoreCall → Prop
  | .compact keepSst keepMeta =>
      sm.sstables.length < 2 ∨
        (∀ p ∈ sm.paths, p ∈ keepSst → p ∈ keepMeta) ∧
          ∀ w ∈ traceOf (leftTables sm keepSst),
            lastWrite (traceOf (leftTables sm keepSst)) w.1 ≠ none →
              lastWrite (rowsOf sm.liveRows) w.1 ≠ none ∨
                (replayWal sm.disk.wal).1[w.1]? ≠ none
  | .clearForSnapshot keepSst _ => leftTables sm keepSst = []
  | _ => True

instance (sm : StateMachine) : (call : StoreCall) → Decidable (Harmless sm call)
  | .set _ _ | .delete _ | .flush => .isTrue trivial
  | .compact _ _ => inferInstanceAs (Decidable (_ ∨ _ ∧ _))
  | .clearForSnapshot _ _ => inferInstanceAs (Decidable (_ = _))

/-! ## Two directories -/

/-- The store over another directory. -/
def withDisk (d : Disk) (sm : StateMachine) : StateMachine := { sm with disk := d }

/-- `open` finds a row of the key. -/
def Recorded (d : Disk) (key : String) : Prop :=
  record (tableTrace d) key ≠ none ∨ (replayWal d.wal).1[key]? ≠ none

/-- `d` is the directory of `ideal` with the tables `stale` in front, which are
older, and with any sidecars. -/
structure LeftBehind (stale : List (Nat × List SSTEntry)) (d : Disk) (ideal : StateMachine) :
    Prop where
  inOrder : InOrder ideal
  wal : d.wal = ideal.disk.wal
  sst : d.sst = stale ++ ideal.disk.sst
  files : Files d
  next : ∀ f ∈ d.sst, f.1 < ideal.nextSstId
  masked : ∀ key, lastWrite (traceOf stale) key ≠ none → Recorded ideal.disk key

namespace LeftBehind

variable {stale : List (Nat × List SSTEntry)} {d : Disk} {ideal : StateMachine}

theorem refl (h : InOrder ideal) : LeftBehind [] ideal.disk ideal :=
  ⟨h, rfl, rfl, h.files, h.next, fun _ hne => absurd rfl hne⟩

/-- `open` finds the same in both directories. -/
theorem heldBy (h : LeftBehind stale d ideal) (key : String) :
    heldBy d key = StateMachine.heldBy ideal.disk key := by
  have htables : tableTrace d = traceOf stale ++ tableTrace ideal.disk := by
    rw [tableTrace, h.sst, List.flatMap_append]
    rfl
  rw [StateMachine.heldBy, StateMachine.heldBy, htables, h.wal, List.append_assoc,
    lastWrite_append]
  set rows := rowsOf (memtableEntries (replayWal ideal.disk.wal).1)
  show (record (tableTrace ideal.disk ++ rows) key).getD _ =
    (record (tableTrace ideal.disk ++ rows) key).join
  cases hrow : record (tableTrace ideal.disk ++ rows) key with
  | some r => cases r <;> rfl
  | none =>
    show lastWrite (traceOf stale) key = none
    have hnone : ¬Recorded ideal.disk key := by
      rw [record_append, record_memtable, Option.or_eq_none_iff, Option.map_eq_none_iff] at hrow
      rintro (htable | hlog)
      · exact htable hrow.2
      · exact hlog hrow.1
    by_contra hne
    exact hnone (h.masked key hne)

end LeftBehind

/-! ### Writes -/

/-- `set` and `delete` up to their flush. -/
def loggedRow (key : String) (value : Option String) (sm : StateMachine) : StateMachine :=
  insertRow key value
    { sm with disk := { sm.disk with wal := sm.disk.wal ++ [walOpOf key value] } }

theorem logRow_eq {sm : StateMachine} (h : sm.disk.faults = []) (key : String)
    (value : Option String) : logRow key value sm = (.ok (), loggedRow key value sm) := by
  rw [logRow, bind_ok (appendWal_ok h _)]
  rfl

/-- `flush`. -/
def flushed (sm : StateMachine) : StateMachine :=
  if sm.memtable.isEmpty then sm
  else
    let entries := memtableEntries sm.memtable
    { sm with
      sstables := sm.sstables ++
        [{ path := sm.nextSstId, sstMeta := sidecarOf sm.nextSstId entries }]
      nextSstId := sm.nextSstId + 1
      memtable := ∅
      memtableBytes := 0
      disk := { withTable sm.disk sm.nextSstId entries with wal := [] } }

theorem flush_eq {sm : StateMachine} (h : sm.disk.faults = []) :
    flush sm = (.ok (), flushed sm) := by
  rw [flush, bind_getThe, flushed]
  split_ifs with hempty
  · rfl
  · rw [bind_ok (writeTable_ok h _), bind_modify, bind_modify, truncateWal_ok (by exact h)]

theorem write_eq {sm : StateMachine} (h : sm.disk.faults = []) (key : String)
    (value : Option String) :
    write key value (walOpOf key value) sm = (.ok (),
      if sm.memtableSizeThreshold ≤ (insertRow key value sm).memtableBytes then
        flushed (loggedRow key value sm)
      else loggedRow key value sm) := by
  rw [write_eq_logRow, bind_ok (logRow_eq h key value), bind_getThe]
  by_cases hfull : sm.memtableSizeThreshold ≤ (insertRow key value sm).memtableBytes
  · rw [if_pos (by exact hfull), if_pos hfull]
    exact flush_eq (by exact h)
  · rw [if_neg (by exact hfull), if_neg hfull]
    rfl

namespace LeftBehind

variable {stale : List (Nat × List SSTEntry)} {d : Disk} {ideal : StateMachine}

theorem loggedRow (h : LeftBehind stale d ideal) (key : String) (value : Option String) :
    LeftBehind stale { d with wal := d.wal ++ [walOpOf key value] }
      (loggedRow key value ideal) := by
  obtain ⟨ideal', heq, hin, -⟩ := logRow_inOrder h.inOrder key value
  rw [logRow_eq h.inOrder.files.faults] at heq
  obtain rfl := (Prod.mk.inj heq).2
  refine ⟨hin, ?_, h.sst, ⟨h.files.faults, h.files.ids, h.files.rows, h.files.sidecars,
    h.files.sidecarIds⟩, h.next, fun k hk => ?_⟩
  · show d.wal ++ _ = ideal.disk.wal ++ _
    rw [h.wal]
  · refine (h.masked k hk).imp (fun hrow => hrow) fun hrow => ?_
    show (replayWal (ideal.disk.wal ++ [walOpOf key value])).1[k]? ≠ none
    rw [replayWal_append, walOpOf_logs key value, TreeMap.getElem?_insert]
    split_ifs
    · simp
    · exact hrow

theorem flushed (h : LeftBehind stale d ideal) :
    ∃ d', StateMachine.flushed (withDisk d ideal) = withDisk d' (StateMachine.flushed ideal) ∧
      LeftBehind stale d' (StateMachine.flushed ideal) := by
  obtain ⟨ideal', heq, hin, -⟩ := flush_inOrder h.inOrder
  rw [flush_eq h.inOrder.files.faults] at heq
  obtain rfl := (Prod.mk.inj heq).2
  by_cases hempty : ideal.memtable.isEmpty = true
  · refine ⟨d, ?_, ?_⟩
    · rw [StateMachine.flushed, StateMachine.flushed, if_pos hempty, if_pos (by exact hempty)]
    · rw [StateMachine.flushed, if_pos hempty]
      exact h
  · have hempty' : ¬(withDisk d ideal).memtable.isEmpty = true := hempty
    rw [StateMachine.flushed, if_neg hempty] at hin
    rw [StateMachine.flushed, if_neg hempty', StateMachine.flushed, if_neg hempty]
    have hrows := memtableEntries_wf ideal.memtable
    obtain ⟨hfiles, hsst⟩ := h.files.withTable h.next hrows
    obtain ⟨-, hsst'⟩ := h.inOrder.files.withTable h.inOrder.next hrows
    refine ⟨{ withTable d ideal.nextSstId (memtableEntries ideal.memtable) with wal := [] }, rfl,
      hin, rfl, ?_, hfiles.truncate, ?_, fun k hk => Or.inl ?_⟩
    · show (withTable d _ _).sst = stale ++ (withTable ideal.disk _ _).sst
      rw [hsst, hsst', h.sst, List.append_assoc]
    · show ∀ f ∈ (withTable d _ _).sst, f.1 < ideal.nextSstId + 1
      rw [hsst]
      intro f hf
      rcases List.mem_append.mp hf with hf | hf
      · have := h.next f hf
        omega
      · rw [List.mem_singleton.mp hf]
        exact Nat.lt_succ_self _
    · -- the rows of the log are among those of the memtable, and now in the new table
      show record (tableTrace (withTable ideal.disk _ _)) k ≠ none
      rw [tableTrace, hsst', List.flatMap_append, record_append]
      simp only [List.flatMap_cons, List.flatMap_nil, List.append_nil]
      rw [record_memtable, Ne, Option.or_eq_none_iff, Option.map_eq_none_iff]
      rintro ⟨hmem, htable⟩
      rcases h.masked k hk with hrow | hrow
      · exact hrow htable
      · obtain ⟨e, he⟩ := Option.ne_none_iff_exists'.mp hrow
        rw [h.inOrder.logged k e he] at hmem
        cases hmem

end LeftBehind

/-! ### Removals -/

theorem mergeTables_congr {d d' : Disk} {tables : List SSTableHandle}
    (h : ∀ x ∈ tables, d'.loadSstEntries x.path = d.loadSstEntries x.path) :
    mergeTables d' tables = mergeTables d tables := by
  unfold mergeTables
  generalize (∅ : TreeMap String SSTEntry) = merged
  induction tables generalizing merged with
  | nil => rfl
  | cons x tables ih =>
    rw [List.foldlM_cons, List.foldlM_cons, h x List.mem_cons_self]
    congr 1
    funext next
    exact ih (fun y hy => h y (List.mem_cons_of_mem x hy)) next

theorem Files.load {d : Disk} (h : Files d) {f : Nat × List SSTEntry} (hf : f ∈ d.sst) :
    d.loadSstEntries f.1 = .ok f.2 := by
  rw [Disk.loadSstEntries, @lookup_of_mem _ _ (h.ids.imp fun hlt => hlt.ne) f.1 f.2 hf]

/-- Removals that leave no table without its sidecar. -/
theorem Files.afterRemovals {d : Disk} (h : Files d) {paths keepSst keepMeta : List Nat}
    (hmeta : ∀ f ∈ d.sst, f.1 ∈ paths → f.1 ∈ keepSst → f.1 ∈ keepMeta) :
    Files (afterRemovals paths keepSst keepMeta d) := by
  refine (h.filterSst _).filterSidecars fun f hf g _ heq => ?_
  obtain ⟨hmem, hkeep⟩ := List.mem_filter.mp hf
  rw [decide_eq_true_eq] at hkeep ⊢
  rw [heq]
  by_cases hpath : f.1 ∈ paths
  · exact Or.inr (hmeta f hmem hpath (hkeep.resolve_left (not_not_intro hpath)))
  · exact Or.inl hpath

theorem keepFiles_append {α : Type} {paths : List Nat} {id : Nat} (hnew : id ∉ paths)
    (keep : List Nat) (files : List (Nat × α)) (content : α) :
    keepFiles paths keep (files ++ [(id, content)]) =
      keepFiles paths keep files ++ [(id, content)] := by
  rw [keepFiles, List.filter_append]
  congr 1
  simp [hnew]

theorem keepFiles_nil {α : Type} {paths : List Nat} {files : List (Nat × α)}
    (h : ∀ f ∈ files, f.1 ∈ paths) : keepFiles paths [] files = [] := by
  rw [keepFiles, List.filter_eq_nil_iff]
  intro f hf
  simp [h f hf]

theorem record_ne_none_of_lastWrite {ws : List (String × Option String)} {key : String}
    (h : lastWrite ws key ≠ none) : record ws key ≠ none := by
  intro hnone
  rw [lastWrite, hnone] at h
  exact h rfl

namespace LeftBehind

variable {stale : List (Nat × List SSTEntry)} {d : Disk} {ideal : StateMachine}

theorem load (h : LeftBehind stale d ideal) {f : Nat × List SSTEntry}
    (hf : f ∈ ideal.disk.sst) : d.loadSstEntries f.1 = .ok f.2 :=
  h.files.load (h.sst ▸ List.mem_append_right stale hf)

theorem mem_paths (h : LeftBehind stale d ideal) {f : Nat × List SSTEntry}
    (hf : f ∈ ideal.disk.sst) : f.1 ∈ ideal.paths := by
  rw [paths, h.inOrder.paths]
  exact List.mem_map_of_mem hf

/-- The merge reads the same tables in both directories. -/
theorem merge (h : LeftBehind stale d ideal) :
    mergeTables d ideal.sstables = .ok (mergeRows ∅ (tableRows ideal.disk)) := by
  rw [← mergeTables_ok h.inOrder.readable]
  refine mergeTables_congr fun x hx => ?_
  have hpath : x.path ∈ ideal.disk.sst.map Prod.fst := by
    rw [← h.inOrder.paths]
    exact List.mem_map_of_mem hx
  obtain ⟨f, hf, heq⟩ := List.mem_map.mp hpath
  rw [← heq, h.load hf, h.inOrder.files.load hf]

theorem liveRows (h : LeftBehind stale d ideal) :
    (withDisk d ideal).liveRows = tableRows ideal.disk := by
  let rows : Nat → List SSTEntry := fun p => SSTableHandle.rows ⟨p, sidecarOf p []⟩ d
  have hpaths : (withDisk d ideal).liveRows =
      (ideal.sstables.map SSTableHandle.path).flatMap rows := by
    rw [List.flatMap_map]
    rfl
  rw [hpaths, h.inOrder.paths, List.flatMap_map, tableRows]
  refine List.flatMap_congr fun f hf => ?_
  show SSTableHandle.rows ⟨f.1, _⟩ d = f.2
  rw [SSTableHandle.rows, h.load hf]

/-- A merge, with the tables that it leaves. -/
theorem compacted (h : LeftBehind stale d ideal) {keepSst keepMeta : List Nat}
    (hmeta : ∀ p ∈ ideal.paths, p ∈ keepSst → p ∈ keepMeta)
    (hshown : ∀ w ∈ traceOf (leftTables (withDisk d ideal) keepSst),
      lastWrite (traceOf (leftTables (withDisk d ideal) keepSst)) w.1 ≠ none →
        lastWrite (rowsOf (withDisk d ideal).liveRows) w.1 ≠ none ∨
          (replayWal d.wal).1[w.1]? ≠ none) :
    let entries := compactedEntries (mergeRows ∅ (tableRows ideal.disk))
    LeftBehind (leftTables (withDisk d ideal) keepSst)
      (StateMachine.compacted entries keepSst keepMeta (withDisk d ideal)).disk
      (StateMachine.compacted entries [] [] ideal) := by
  intro entries
  obtain ⟨hrows, hlast⟩ := compactedEntries_ok h.inOrder.readable.tombstones
  obtain ⟨hfiles, hsst⟩ := h.files.withTable h.next hrows
  obtain ⟨hfiles', hsst'⟩ := h.inOrder.files.withTable h.inOrder.next hrows
  have hfresh : ideal.nextSstId ∉ ideal.paths := by
    rw [paths, h.inOrder.paths]
    intro hmem
    obtain ⟨f, hf, heq⟩ := List.mem_map.mp hmem
    have := h.inOrder.next f hf
    omega
  have hleft : (StateMachine.compacted entries keepSst keepMeta (withDisk d ideal)).disk.sst =
      leftTables (withDisk d ideal) keepSst ++ [(ideal.nextSstId, entries)] := by
    show keepFiles ideal.paths keepSst (withTable d ideal.nextSstId entries).sst = _
    rw [hsst, keepFiles_append hfresh]
    rfl
  have hone : (StateMachine.compacted entries [] [] ideal).disk.sst =
      [(ideal.nextSstId, entries)] := by
    show keepFiles ideal.paths [] (withTable ideal.disk ideal.nextSstId entries).sst = _
    rw [hsst', keepFiles_append hfresh, keepFiles_nil fun f hf => h.mem_paths hf, List.nil_append]
  refine ⟨⟨?_, ?_, ?_, h.inOrder.logged⟩, h.wal, ?_, ?_, ?_, fun key hkey => ?_⟩
  · exact hfiles'.afterRemovals fun f _ _ hf => absurd hf List.not_mem_nil
  · rw [hone]
    rfl
  · rw [hone]
    intro f hf
    rw [List.mem_singleton.mp hf]
    exact Nat.lt_succ_self _
  · rw [hleft, hone]
  · exact hfiles.afterRemovals fun f _ hf => hmeta f.1 hf
  · rw [hleft]
    intro f hf
    show f.1 < ideal.nextSstId + 1
    rcases List.mem_append.mp hf with hf | hf
    · have := h.next f (List.mem_of_mem_filter hf)
      omega
    · rw [List.mem_singleton.mp hf]
      exact Nat.lt_succ_self _
  · obtain ⟨r, hr⟩ := Option.ne_none_iff_exists'.mp (record_ne_none_of_lastWrite hkey)
    refine (hshown _ (mem_of_record hr) hkey).imp (fun htable => ?_) fun hlog => ?_
    · rw [h.liveRows, ← hlast] at htable
      rw [tableTrace, hone, List.flatMap_cons, List.flatMap_nil, List.append_nil]
      exact record_ne_none_of_lastWrite htable
    · rw [h.wal] at hlog
      exact hlog

/-- `clear_for_snapshot` that leaves no table. -/
theorem cleared (h : LeftBehind stale d ideal) {keepSst keepMeta : List Nat}
    (hnone : leftTables (withDisk d ideal) keepSst = []) :
    LeftBehind [] (StateMachine.cleared keepSst keepMeta (withDisk d ideal)).disk
      (StateMachine.cleared [] [] ideal) := by
  have hleft : (StateMachine.cleared keepSst keepMeta (withDisk d ideal)).disk.sst = [] := hnone
  have hempty : (StateMachine.cleared [] [] ideal).disk.sst = [] :=
    keepFiles_nil fun f hf => h.mem_paths hf
  have hfiles : ∀ {d' : Disk} {ks km : List Nat}, Files d' →
      (afterRemovals ideal.paths ks km { d' with wal := [] }).sst = [] →
      Files (afterRemovals ideal.paths ks km { d' with wal := [] }) := by
    intro d' ks km hd' hsst
    refine (hd'.truncate.filterSst _).filterSidecars fun f hf => ?_
    exact absurd (hsst ▸ hf) List.not_mem_nil
  refine ⟨⟨hfiles h.inOrder.files hempty, ?_, ?_, ?_⟩, rfl, ?_, hfiles h.files hleft, ?_,
    fun key hkey => absurd rfl hkey⟩
  · rw [hempty]
    rfl
  · rw [hempty]
    exact fun f hf => absurd hf List.not_mem_nil
  · exact fun key e he => he
  · rw [hleft, hempty]
    rfl
  · rw [hleft]
    exact fun f hf => absurd hf List.not_mem_nil

end LeftBehind

/-! ## Runs -/

theorem withFaults_nil {sm : StateMachine} (h : sm.disk.faults = []) : withFaults [] sm = sm := by
  rw [withFaults, ← h]

theorem callStep_write {sm : StateMachine} (h : sm.disk.faults = []) {call : StoreCall}
    {key : String} {value : Option String}
    (hcall : callStep sm call =
      (finish (write key value (walOpOf key value) sm)).toOption) :
    callStep sm call = some
      (if sm.memtableSizeThreshold ≤ (insertRow key value sm).memtableBytes then
        flushed (loggedRow key value sm)
      else loggedRow key value sm) := by
  rw [hcall, write_eq h]
  rfl

theorem callStep_compact {sm : StateMachine} (h : sm.disk.faults = [])
    {merged : TreeMap String SSTEntry} (hmany : ¬sm.sstables.length < 2)
    (hmerge : mergeTables sm.disk sm.sstables = .ok merged) (keepSst keepMeta : List Nat) :
    callStep sm (.compact keepSst keepMeta) =
      some (compacted (compactedEntries merged) keepSst keepMeta sm) := by
  rw [callStep, compact_withFaults hmany hmerge]
  show some (withFaults [] (compacted _ keepSst keepMeta sm)) = _
  rw [withFaults_nil (by exact h)]

theorem callStep_compact_few {sm : StateMachine} (h : sm.disk.faults = [])
    (hfew : sm.sstables.length < 2) (keepSst keepMeta : List Nat) :
    callStep sm (.compact keepSst keepMeta) = some sm := by
  rw [callStep, compact, bind_getThe, if_pos (by exact hfew)]
  show some (withFaults [] sm) = some sm
  rw [withFaults_nil h]

theorem callStep_clear {sm : StateMachine} (h : sm.disk.faults = []) (keepSst keepMeta : List Nat) :
    callStep sm (.clearForSnapshot keepSst keepMeta) = some (cleared keepSst keepMeta sm) := by
  rw [callStep, clearForSnapshot_withFaults]
  show some (withFaults [] (cleared keepSst keepMeta sm)) = _
  rw [withFaults_nil (by exact h)]

section Runs

variable {stale : List (Nat × List SSTEntry)} {d : Disk} {ideal : StateMachine}

/-- A row is written in both directories. -/
theorem LeftBehind.write (h : LeftBehind stale d ideal) (key : String) (value : Option String) :
    ∃ d' ideal',
      (if (withDisk d ideal).memtableSizeThreshold ≤
            (insertRow key value (withDisk d ideal)).memtableBytes then
          StateMachine.flushed (StateMachine.loggedRow key value (withDisk d ideal))
        else StateMachine.loggedRow key value (withDisk d ideal)) = withDisk d' ideal' ∧
      (if ideal.memtableSizeThreshold ≤ (insertRow key value ideal).memtableBytes then
          StateMachine.flushed (StateMachine.loggedRow key value ideal)
        else StateMachine.loggedRow key value ideal) = ideal' ∧
      LeftBehind stale d' ideal' := by
  have hlogged := h.loggedRow key value
  by_cases hfull : ideal.memtableSizeThreshold ≤ (insertRow key value ideal).memtableBytes
  · obtain ⟨d', heq, h'⟩ := hlogged.flushed
    refine ⟨d', _, ?_, if_pos hfull, h'⟩
    rw [if_pos (by exact hfull)]
    exact heq
  · refine ⟨_, _, ?_, if_neg hfull, hlogged⟩
    rw [if_neg (by exact hfull)]
    rfl

/-- One call in both directories. -/
theorem LeftBehind.call (h : LeftBehind stale d ideal) {call : StoreCall}
    (hharm : Harmless (withDisk d ideal) call) :
    ∃ stale' d' ideal', callStep (withDisk d ideal) call = some (withDisk d' ideal') ∧
      callStep ideal call.allRemoved = some ideal' ∧ LeftBehind stale' d' ideal' := by
  have hf : (withDisk d ideal).disk.faults = [] := h.files.faults
  have hf' := h.inOrder.files.faults
  cases call with
  | set key value =>
    obtain ⟨d', ideal', heq, heq', h'⟩ := h.write key (some value)
    refine ⟨stale, d', ideal', ?_, ?_, h'⟩
    · rw [← heq]
      exact callStep_write hf rfl
    · rw [← heq']
      exact callStep_write hf' rfl
  | delete key =>
    obtain ⟨d', ideal', heq, heq', h'⟩ := h.write key none
    refine ⟨stale, d', ideal', ?_, ?_, h'⟩
    · rw [← heq]
      exact callStep_write hf rfl
    · rw [← heq']
      exact callStep_write hf' rfl
  | flush =>
    obtain ⟨d', heq, h'⟩ := h.flushed
    refine ⟨stale, d', _, ?_, ?_, h'⟩
    · rw [callStep, flush_eq hf, ← heq]
      rfl
    · show callStep ideal .flush = _
      rw [callStep, flush_eq hf']
      rfl
  | compact keepSst keepMeta =>
    by_cases hfew : ideal.sstables.length < 2
    · exact ⟨stale, d, ideal, callStep_compact_few hf hfew keepSst keepMeta,
        callStep_compact_few hf' hfew [] [], h⟩
    · obtain ⟨hmeta, hshown⟩ := Or.resolve_left hharm hfew
      have h' := h.compacted hmeta hshown
      exact ⟨_, (StateMachine.compacted _ keepSst keepMeta (withDisk d ideal)).disk, _,
        by exact callStep_compact hf hfew h.merge keepSst keepMeta,
        callStep_compact hf' hfew (mergeTables_ok h.inOrder.readable) [] [], h'⟩
  | clearForSnapshot keepSst keepMeta =>
    exact ⟨[], (StateMachine.cleared keepSst keepMeta (withDisk d ideal)).disk, _,
      by exact callStep_clear hf keepSst keepMeta, callStep_clear hf' [] [], h.cleared hharm⟩

/-- The two runs, call by call. -/
theorem LeftBehind.calls {calls : List StoreCall} :
    ∀ {stale : List (Nat × List SSTEntry)} {d : Disk} {ideal : StateMachine},
      LeftBehind stale d ideal → Along callStep Harmless (withDisk d ideal) calls →
      ∃ stale' d' ideal', Run.run callStep (withDisk d ideal) calls = some (withDisk d' ideal') ∧
        Run.run callStep ideal (calls.map StoreCall.allRemoved) = some ideal' ∧
        LeftBehind stale' d' ideal' := by
  induction calls with
  | nil => exact fun h _ => ⟨_, _, _, rfl, rfl, h⟩
  | cons call calls ih =>
    rintro stale d ideal h ⟨hharm, hrest⟩
    obtain ⟨_, _, _, hstep, hstep', h₁⟩ := h.call hharm
    obtain ⟨stale₂, d₂, ideal₂, hrun, hrun', h₂⟩ := ih h₁ (hrest _ hstep)
    exact ⟨stale₂, d₂, ideal₂, run_cons_eq_some.mpr ⟨_, hstep, hrun⟩,
      run_cons_eq_some.mpr ⟨_, hstep', hrun'⟩, h₂⟩

/-- In every run whose calls meet `Harmless`, and at every point of it, `open`
succeeds on the directory and finds the data of the run in which every removal
succeeds. -/
theorem leftovers_harmless {sm : StateMachine} (h : InOrder sm) {calls : List StoreCall}
    (halong : Along callStep Harmless sm calls) :
    ∀ done, done <+: calls →
      ∃ sm' ideal, Run.run callStep sm done = some sm' ∧
        Run.run callStep sm (done.map StoreCall.allRemoved) = some ideal ∧
        ∀ threshold, ∃ opened openedIdeal data dataIdeal,
          openStore threshold sm'.disk = .ok opened ∧
          openStore threshold ideal.disk = .ok openedIdeal ∧
          opened.snapshotData = .ok data ∧ openedIdeal.snapshotData = .ok dataIdeal ∧
          ∀ key : String, data[key]? = dataIdeal[key]? := by
  rintro done ⟨rest, rfl⟩
  obtain ⟨stale, d, ideal, hrun, hrun', hleft⟩ := (LeftBehind.refl h).calls halong.left
  refine ⟨_, ideal, hrun, hrun', fun threshold => ?_⟩
  obtain ⟨opened, hopen, hin, -, hheld⟩ := openStore_files hleft.files threshold
  obtain ⟨openedIdeal, hopen', hin', -, hheld'⟩ := openStore_files hleft.inOrder.files threshold
  obtain ⟨data, hdata, hget⟩ := hin.readable.snapshotData
  obtain ⟨dataIdeal, hdata', hget'⟩ := hin'.readable.snapshotData
  refine ⟨opened, openedIdeal, data, dataIdeal, hopen, hopen', hdata, hdata', fun key => ?_⟩
  rw [hget key, hget' key, hheld key, hheld' key, hleft.heldBy key]

end Runs

/-- Both files of the older table stay, and the key is removed after the merge. -/
theorem leftovers_harmless_newer_value :
    ∃ sm sm' ideal opened openedIdeal data dataIdeal,
      openStore 1024 Disk.empty = .ok sm ∧
      Run.run callStep sm [.set "k" "v", .flush, .set "k" "w", .flush, .compact [0] [0],
        .delete "k"] = some sm' ∧
      Run.run callStep sm [.set "k" "v", .flush, .set "k" "w", .flush, .compact [] [],
        .delete "k"] = some ideal ∧
      openStore 1024 sm'.disk = .ok opened ∧ openStore 1024 ideal.disk = .ok openedIdeal ∧
      opened.snapshotData = .ok data ∧ openedIdeal.snapshotData = .ok dataIdeal ∧
      ∀ key : String, data[key]? = dataIdeal[key]? := by
  obtain ⟨sm, hopen, hin, -⟩ := openStore_files Files.empty 1024
  have halong : Along callStep Harmless sm
      [.set "k" "v", .flush, .set "k" "w", .flush, .compact [0] [0], .delete "k"] := by
    obtain rfl := Except.ok.inj hopen
    decide +kernel
  obtain ⟨sm', ideal, hrun, hrun', hfound⟩ := leftovers_harmless hin halong _ (List.prefix_refl _)
  obtain ⟨opened, openedIdeal, data, dataIdeal, hdata⟩ := hfound 1024
  exact ⟨sm, sm', ideal, opened, openedIdeal, data, dataIdeal, hopen, hrun, hrun', hdata⟩

/-- A key is set, and removed in the next table.  The merge drops the tombstone,
and the table below it stays: `open` shows the value again.  When only the
sidecar of that table goes, `open` fails. -/
theorem left_table_resurrects :
    ∃ sm sm' ideal opened openedIdeal data dataIdeal broken,
      openStore 1024 Disk.empty = .ok sm ∧
      Run.run callStep sm [.set "k" "v", .flush, .delete "k", .flush, .compact [0] [0]] =
        some sm' ∧
      Run.run callStep sm [.set "k" "v", .flush, .delete "k", .flush, .compact [] []] =
        some ideal ∧
      openStore 1024 sm'.disk = .ok opened ∧ openStore 1024 ideal.disk = .ok openedIdeal ∧
      opened.snapshotData = .ok data ∧ openedIdeal.snapshotData = .ok dataIdeal ∧
      data["k"]? = some "v" ∧ dataIdeal["k"]? = none ∧
      Run.run callStep sm [.set "k" "v", .flush, .delete "k", .flush, .compact [0] []] =
        some broken ∧
      openStore 1024 broken.disk = .error .notFound := by
  refine ⟨_, _, _, _, _, _, _, _, rfl, rfl, rfl, rfl, rfl, rfl, rfl, ?_, ?_, rfl, rfl⟩
  · decide
  · decide

end StateMachine

end OxideKv
