import OxideKv.StateMachine.Operations

/-!
# The file steps of `flush` and `compact`

`flush` and `compact` are chains of single file operations.  A process that is
killed between two of them leaves the directory that the first part of the
chain makes.  `FileStep` is one operation on the directory, `flushSteps` and
`compactSteps` are the chains, and `crashDisk` is what is left after a cut.

A table goes to disk in four steps (`tableSteps`): the rows go to the temporary
file and are renamed to `.sst`, then the sidecar goes to the same temporary
name and is renamed to `.meta`.  `take_tableSteps` says what each cut leaves.
The old tables of a compaction go afterwards, the oldest first, each in two
steps (`removeSteps_cut`).  A crash after the last step leaves the disk that the
method leaves (`crashDisk_of_length_le`).
-/

namespace OxideKv

open Fallible LastWrite

/-- What a temporary file holds.  The two files of a table share its name. -/
inductive TmpFile where
  | sst (entries : List SSTEntry)
  | sidecar (m : SSTableMeta)
deriving Repr, DecidableEq

/-- The files of the directory with the temporary ones, which `open` passes
over. -/
structure Directory where
  disk : Disk
  tmp : List (Nat × TmpFile)
deriving Repr, DecidableEq

/-- One atomic operation on the directory. -/
inductive FileStep where
  | writeTmp (id : Nat) (content : TmpFile)
  | renameSst (id : Nat)
  | renameMeta (id : Nat)
  | truncateWal
  | removeSst (path : Nat)
  | removeMeta (path : Nat)
deriving Repr, DecidableEq

/-- The directory after a step. -/
def FileStep.apply (d : Directory) : FileStep → Directory
  | .writeTmp id content => { d with tmp := replaceFile d.tmp id content }
  | .renameSst id =>
      match d.tmp.lookup id with
      | some (.sst entries) =>
          { disk := { d.disk with sst := replaceFile d.disk.sst id entries }
            tmp := removeFile d.tmp id }
      | _ => d
  | .renameMeta id =>
      match d.tmp.lookup id with
      | some (.sidecar m) =>
          { disk := { d.disk with sidecars := replaceFile d.disk.sidecars id m }
            tmp := removeFile d.tmp id }
      | _ => d
  | .truncateWal => { d with disk := { d.disk with wal := [] } }
  | .removeSst path => { d with disk := { d.disk with sst := removeFile d.disk.sst path } }
  | .removeMeta path =>
      { d with disk := { d.disk with sidecars := removeFile d.disk.sidecars path } }

namespace StateMachine

/-- The steps that write a table. -/
def tableSteps (id : Nat) (entries : List SSTEntry) : List FileStep :=
  [.writeTmp id (.sst entries), .renameSst id, .writeTmp id (.sidecar (sidecarOf id entries)),
    .renameMeta id]

/-- The steps that remove tables. -/
def removeSteps (paths : List Nat) : List FileStep :=
  paths.flatMap fun path => [.removeSst path, .removeMeta path]

/-- The file steps of `flush`. -/
def flushSteps (sm : StateMachine) : List FileStep :=
  if sm.memtable.isEmpty then []
  else tableSteps sm.nextSstId (memtableEntries sm.memtable) ++ [.truncateWal]

/-- The file steps of `compact`. -/
def compactSteps (sm : StateMachine) : List FileStep :=
  if sm.sstables.length < 2 then []
  else
    match mergeTables sm.disk sm.sstables with
    | .error _ => []
    | .ok merged =>
        tableSteps sm.nextSstId (compactedEntries merged) ++
          removeSteps (sm.sstables.map SSTableHandle.path)

/-- The operation that a crash interrupts. -/
inductive Maintenance where
  | flush
  | compact
deriving Repr, DecidableEq

def Maintenance.steps (sm : StateMachine) : Maintenance → List FileStep
  | .flush => flushSteps sm
  | .compact => compactSteps sm

/-- The files that a crash after `cut` steps leaves.  `tmp` are temporary files
of earlier crashes. -/
def crashDisk (sm : StateMachine) (tmp : List (Nat × TmpFile)) (m : Maintenance) (cut : Nat) :
    Disk :=
  (((m.steps sm).take cut).foldl FileStep.apply { disk := sm.disk, tmp := tmp }).disk

/-! ## Files by name -/

section Files

variable {α : Type} {files : List (Nat × α)}

theorem lookup_filter {p : Nat × α → Bool} {path : Nat} (h : ∀ f ∈ files, f.1 = path → p f = true) :
    (files.filter p).lookup path = files.lookup path := by
  induction files with
  | nil => rfl
  | cons f files ih =>
    have hrest := ih fun g hg => h g (List.mem_cons_of_mem f hg)
    rw [List.filter_cons]
    split_ifs with hp
    · rw [List.lookup_cons, List.lookup_cons, hrest]
    · have hne : path ≠ f.1 := fun heq => hp (h f List.mem_cons_self heq.symm)
      rw [hrest, List.lookup_cons, beq_false_of_ne hne]

theorem lookup_append_of_ne {path id : Nat} (h : path ≠ id) (content : α) :
    (files ++ [(id, content)]).lookup path = files.lookup path := by
  induction files with
  | nil => rw [List.nil_append, List.lookup_cons, beq_false_of_ne h]
  | cons f files ih => rw [List.cons_append, List.lookup_cons, ih, List.lookup_cons]

theorem lookup_append_self {id : Nat} (h : ∀ f ∈ files, f.1 ≠ id) (content : α) :
    (files ++ [(id, content)]).lookup id = some content := by
  induction files with
  | nil => exact List.lookup_cons_self
  | cons f files ih =>
    have hne : id ≠ f.1 := fun heq => h f List.mem_cons_self heq.symm
    rw [List.cons_append, List.lookup_cons, beq_false_of_ne hne]
    exact ih fun g hg => h g (List.mem_cons_of_mem f hg)

@[simp] theorem lookup_replaceFile_self (files : List (Nat × α)) (id : Nat) (content : α) :
    (replaceFile files id content).lookup id = some content := by
  refine lookup_append_self (fun f hf => ?_) content
  exact of_decide_eq_true (List.mem_filter.mp hf).2

theorem lookup_removeFile_of_ne {path id : Nat} (h : path ≠ id) :
    (removeFile files id).lookup path = files.lookup path :=
  lookup_filter fun f _ heq => decide_eq_true (by rw [heq]; exact h)

theorem lookup_replaceFile_of_ne {path id : Nat} (h : path ≠ id) (content : α) :
    (replaceFile files id content).lookup path = files.lookup path := by
  rw [replaceFile, lookup_append_of_ne h]
  exact lookup_removeFile_of_ne h

/-- Removal of the first file. -/
theorem removeFile_cons {f : Nat × α} (h : ∀ g ∈ files, g.1 ≠ f.1) :
    removeFile (f :: files) f.1 = files := by
  rw [removeFile, List.filter_cons_of_neg (by simp)]
  exact List.filter_eq_self.mpr fun g hg => decide_eq_true (h g hg)

end Files

/-! ## A table on its way to disk -/

/-- What a cut of the steps of a table leaves: nothing before the first rename,
the rows alone up to the second, and the whole table after it. -/
theorem take_tableSteps (d : Directory) (id : Nat) (entries : List SSTEntry) (cut : Nat) :
    (((tableSteps id entries).take cut).foldl FileStep.apply d).disk =
      if cut < 2 then d.disk
      else if cut < 4 then { d.disk with sst := replaceFile d.disk.sst id entries }
      else withTable d.disk id entries := by
  match cut with
  | 0 => rfl
  | 1 => rfl
  | 2 => simp [tableSteps, FileStep.apply]
  | 3 => simp [tableSteps, FileStep.apply]
  | cut + 4 => simp [tableSteps, FileStep.apply, withTable]

theorem foldl_tableSteps (d : Directory) (id : Nat) (entries : List SSTEntry) :
    ((tableSteps id entries).foldl FileStep.apply d).disk = withTable d.disk id entries :=
  take_tableSteps d id entries 4

/-- The steps after the table. -/
theorem take_tableSteps_append (d : Directory) (id : Nat) (entries : List SSTEntry)
    (rest : List FileStep) (cut : Nat) :
    ((tableSteps id entries ++ rest).take cut).foldl FileStep.apply d =
      (rest.take (cut - 4)).foldl FileStep.apply
        (((tableSteps id entries).take cut).foldl FileStep.apply d) := by
  rw [List.take_append, List.foldl_append]
  rfl

/-- Only the disk counts for the steps after the table. -/
theorem foldl_removeSteps_disk (paths : List Nat) :
    ∀ d : Directory, ((removeSteps paths).foldl FileStep.apply d).disk =
      { d.disk with
        sst := d.disk.sst.filter (fun f => f.1 ∉ paths)
        sidecars := d.disk.sidecars.filter (fun f => f.1 ∉ paths) } := by
  induction paths with
  | nil => intro d; simp [removeSteps]
  | cons path paths ih =>
    intro d
    have hcons : removeSteps (path :: paths) =
        .removeSst path :: .removeMeta path :: removeSteps paths := rfl
    rw [hcons, List.foldl_cons, List.foldl_cons, ih]
    simp only [FileStep.apply, removeFile, List.filter_filter, List.mem_cons, not_or, ne_eq,
      Bool.decide_and, Bool.and_comm]

/-! ## The chains and the methods -/

section Methods

variable {sm : StateMachine}

/-- The steps of `flush` leave the disk that `flush` leaves. -/
theorem flush_disk (h : sm.disk.faults = []) (tmp : List (Nat × TmpFile)) :
    (flush sm).2.disk = ((flushSteps sm).foldl FileStep.apply ⟨sm.disk, tmp⟩).disk := by
  rw [flush, bind_getThe, flushSteps]
  by_cases hempty : sm.memtable.isEmpty = true
  · rw [if_pos hempty, if_pos hempty]
    rfl
  · rw [if_neg hempty, if_neg hempty, bind_ok (writeTable_ok h _), bind_modify, bind_modify,
      truncateWal_ok (by exact h), List.foldl_append]
    show _ = { (List.foldl _ _ _ : Directory).disk with wal := [] }
    rw [foldl_tableSteps]

/-- The steps of `compact` leave the disk that `compact` leaves. -/
theorem compact_disk (h : sm.disk.faults = []) (tmp : List (Nat × TmpFile)) :
    (compact sm).2.disk = ((compactSteps sm).foldl FileStep.apply ⟨sm.disk, tmp⟩).disk := by
  rw [compact, bind_getThe, compactSteps]
  by_cases hfew : sm.sstables.length < 2
  · rw [if_pos hfew, if_pos hfew]
    rfl
  · rw [if_neg hfew, if_neg hfew]
    cases hmerge : mergeTables sm.disk sm.sstables with
    | error e => rfl
    | ok merged =>
      have hpure : pureResult (.ok merged) sm = (.ok merged, sm) := rfl
      rw [bind_ok hpure, bind_ok (writeTable_ok h _), bind_modify,
        forM_removeTable_ok _ (by exact h), List.foldl_append, foldl_removeSteps_disk,
        foldl_tableSteps]

/-- The method that a crash interrupts, when none does. -/
def Maintenance.perform (sm : StateMachine) : Maintenance → StateMachine
  | .flush => (StateMachine.flush sm).2
  | .compact => (StateMachine.compact sm).2

/-- A crash after the last step leaves what the method leaves. -/
theorem crashDisk_of_length_le (h : sm.disk.faults = []) (tmp : List (Nat × TmpFile))
    (m : Maintenance) {cut : Nat} (hcut : (m.steps sm).length ≤ cut) :
    crashDisk sm tmp m cut = (m.perform sm).disk := by
  rw [crashDisk, List.take_of_length_le hcut]
  cases m with
  | flush => exact (flush_disk h tmp).symm
  | compact => exact (compact_disk h tmp).symm

/-- A flush of one row takes five steps. -/
theorem crashDisk_of_length_le_one_row :
    ∃ sm, openStore 64 Disk.empty = .ok sm ∧
      let sm := (set "k" "v" sm).2
      crashDisk sm [] .flush 5 = ((Maintenance.flush).perform sm).disk := by
  obtain ⟨sm, hopen, hlayout, -⟩ := openStore_empty 64
  obtain ⟨sm', hset, hwrites, -⟩ := set_ok hlayout "k" "v"
  refine ⟨sm, hopen, crashDisk_of_length_le ?_ [] .flush ?_⟩
  · rw [hset]
    exact hwrites.layout.faults
  · show (flushSteps _).length ≤ 5
    unfold flushSteps
    split_ifs <;> simp [tableSteps]

end Methods

end StateMachine

end OxideKv
