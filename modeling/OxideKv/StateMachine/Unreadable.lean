import OxideKv.StateMachine.Reads

/-!
# Reads over tables that cannot be read

`get` goes on to the next older table where `load_sst_entries` fails, as if the
table did not hold the key.  `snapshot_data` and `compact` report the error.

`getWithout bad` is `get` while the tables of `bad` cannot be read.
`getFromTables_without_eq_some_iff` says which row a value comes from: the first
row of the key in a table that can be read, below tables that are skipped.
Nothing is brought back exactly when no skipped table has a newer row
(`get_keeps_last_write_iff`).
-/

namespace OxideKv

open Fallible LastWrite

/-- The files with those of `bad` gone, for a reader. -/
def Disk.without (d : Disk) (bad : Nat → Bool) : Disk :=
  { d with sst := d.sst.filter fun f => !bad f.1 }

theorem lookup_filter {α : Type} (bad : Nat → Bool) (path : Nat) :
    ∀ files : List (Nat × α), (files.filter fun f => !bad f.1).lookup path =
      if bad path then none else files.lookup path
  | [] => by simp
  | (id, content) :: files => by
    have ih := lookup_filter bad path files
    by_cases hid : path = id
    · subst hid
      cases hbad : bad path <;> simp [hbad, ih]
    · have hne : (path == id) = false := beq_eq_false_iff_ne.mpr hid
      cases hbad : bad id <;> simp [hbad, ih, List.lookup_cons, hne]

theorem Disk.loadSstEntries_without (d : Disk) (bad : Nat → Bool) (path : Nat) :
    (d.without bad).loadSstEntries path =
      if bad path then .error .notFound else d.loadSstEntries path := by
  simp only [loadSstEntries, without, lookup_filter]
  cases bad path <;> rfl

namespace StateMachine

/-- `get` while the tables of `bad` cannot be read. -/
def getWithout (bad : Nat → Bool) (sm : StateMachine) (key : String) : Option String :=
  get { sm with disk := sm.disk.without bad } key

section Tables

variable {d : Disk} {bad : Nat → Bool} {key : String}

/-- `get` goes past the table, because it has to or because it cannot read it. -/
def Skips (d : Disk) (bad : Nat → Bool) (key : String) (h : SSTableHandle) : Prop :=
  bad h.path = true ∨ h.passedOver d key

/-- The newest row of the key in the tables, which are listed newest first. -/
def newestRow (d : Disk) (key : String) (newer : List SSTableHandle) : Option (Option String) :=
  record (newer.reverse.flatMap fun h => rowsOf (h.rows d)) key

theorem tablesShow_append (newer older : List SSTableHandle) :
    tablesShow d (newer ++ older) key = (newestRow d key newer).getD (tablesShow d older key) := by
  rw [tablesShow, List.reverse_append, List.flatMap_append, lastWrite_append]
  rfl

theorem getFromTables_of_skips {h : SSTableHandle} (hwf : h.Wf d) (hskips : Skips d bad key h)
    (older : List SSTableHandle) :
    getFromTables (d.without bad) key (h :: older) = getFromTables (d.without bad) key older := by
  rw [getFromTables]
  split
  case isFalse => rfl
  case isTrue hcov =>
    rw [Disk.loadSstEntries_without]
    rcases hskips with hbad | hfalse | hnil
    · rw [if_pos hbad]
    · rw [hcov] at hfalse
      cases hfalse
    · rw [hwf.load, hnil]
      cases bad h.path <;> rfl

/-- A table that is not skipped decides what `get` returns. -/
theorem getFromTables_of_not_skips {h : SSTableHandle} (hwf : h.Wf d)
    (hskips : ¬Skips d bad key h) (older : List SSTableHandle) :
    getFromTables (d.without bad) key (h :: older) = (record (rowsOf (h.rows d)) key).join := by
  rw [Skips, not_or, Bool.not_eq_true] at hskips
  obtain ⟨hbad, hpass⟩ := hskips
  have hcov : h.covers key = true := by
    rw [SSTableHandle.passedOver, not_or, Bool.not_eq_false] at hpass
    exact hpass.1
  rw [getFromTables, if_pos hcov, Disk.loadSstEntries_without, hbad, if_neg Bool.false_ne_true,
    hwf.load]
  dsimp only
  cases hr : record (rowsOf (h.rows d)) key with
  | some r => rw [scanEntries_of_record hwf.rows.sorted hr, Option.join_some]
  | none =>
    have hhole : ∀ e ∈ h.rows d, e.key ≠ key := by
      intro e he
      exact (record_eq_none_iff _ key).mp hr (e.key, e.shown) (List.mem_map.mpr ⟨e, he, rfl⟩)
    obtain ⟨e, he, hle⟩ := exists_le_of_not_passedOver hwf hpass
    rw [scanEntries_of_hole hhole he hle, Option.join_none]

/-- Where a value that `get` returns comes from. -/
theorem getFromTables_without_eq_some_iff {v : String} :
    ∀ tables : List SSTableHandle, (∀ h ∈ tables, h.Wf d) →
      (getFromTables (d.without bad) key tables = some v ↔
        ∃ newer sst older, tables = newer ++ sst :: older ∧ (∀ h ∈ newer, Skips d bad key h) ∧
          bad sst.path = false ∧ record (rowsOf (sst.rows d)) key = some (some v)) := by
  intro tables
  induction tables with
  | nil => simp [getFromTables]
  | cons h older ih =>
    intro hwf
    have hh := hwf h List.mem_cons_self
    have ih := ih fun x hx => hwf x (List.mem_cons_of_mem _ hx)
    by_cases hskips : Skips d bad key h
    · rw [getFromTables_of_skips hh hskips, ih]
      constructor
      · rintro ⟨newer, sst, rest, rfl, hnewer, hrow⟩
        refine ⟨h :: newer, sst, rest, rfl, ?_, hrow⟩
        exact List.forall_mem_cons.mpr ⟨hskips, hnewer⟩
      · rintro ⟨newer, sst, rest, heq, hnewer, hbad, hrow⟩
        cases newer with
        | nil =>
          obtain ⟨rfl, -⟩ := List.cons.inj heq
          rcases hskips with hbad' | hpass
          · rw [hbad] at hbad'
            cases hbad'
          · rw [record_of_passedOver hh hpass] at hrow
            cases hrow
        | cons x newer =>
          obtain ⟨-, rfl⟩ := List.cons.inj heq
          exact ⟨newer, sst, rest, rfl, (List.forall_mem_cons.mp hnewer).2, hbad, hrow⟩
    · rw [getFromTables_of_not_skips hh hskips, Option.join_eq_some_iff]
      have hbad : bad h.path = false := by
        rw [Skips, not_or, Bool.not_eq_true] at hskips
        exact hskips.1
      constructor
      · intro hrow
        exact ⟨[], h, older, rfl, by simp, hbad, hrow⟩
      · rintro ⟨newer, sst, rest, heq, hnewer, -, hrow⟩
        cases newer with
        | nil =>
          obtain ⟨rfl, -⟩ := List.cons.inj heq
          exact hrow
        | cons x newer =>
          obtain ⟨rfl, -⟩ := List.cons.inj heq
          exact absurd (hnewer h List.mem_cons_self) hskips

end Tables

/-- The tables that `get` skips hold a newer row of the key than the table it
takes the value from, and the row holds something else. -/
def BringsBack (bad : Nat → Bool) (sm : StateMachine) (key : String) : Prop :=
  sm.memtable[key]? = none ∧
    ∃ newer sst older value row, sm.sstables.reverse = newer ++ sst :: older ∧
      (∀ h ∈ newer, Skips sm.disk bad key h) ∧ bad sst.path = false ∧
      record (rowsOf (sst.rows sm.disk)) key = some (some value) ∧
      newestRow sm.disk key newer = some row ∧ row ≠ some value

theorem getWithout_eq_contents_iff {sm : StateMachine} (h : Layout sm) (bad : Nat → Bool)
    (key : String) :
    (∀ v, sm.getWithout bad key = some v → sm.contents key = some v) ↔
      ¬sm.BringsBack bad key := by
  have hwf : ∀ sst ∈ sm.sstables.reverse, sst.Wf sm.disk := by
    intro sst hsst
    exact h.handleWf sst (List.mem_reverse.mp hsst)
  rw [contents, trace, lastWrite_append, record_memtable, ← h.tablesShow, BringsBack]
  simp only [getWithout, get]
  cases hm : sm.memtable[key]? with
  | some entry => simp
  | none =>
    simp only [Option.map_none, Option.getD_none, true_and]
    constructor
    · rintro hkeeps ⟨newer, sst, older, value, row, htables, hnewer, hbad, hvalue, hrow, hne⟩
      have hget := (getFromTables_without_eq_some_iff _ hwf).mpr
        ⟨newer, sst, older, htables, hnewer, hbad, hvalue⟩
      have hshow := hkeeps value hget
      rw [htables, tablesShow_append, hrow] at hshow
      exact hne hshow
    · intro hnone v hget
      obtain ⟨newer, sst, older, htables, hnewer, hbad, hvalue⟩ :=
        (getFromTables_without_eq_some_iff _ hwf).mp hget
      rw [htables, tablesShow_append, tablesShow_cons, hvalue]
      cases hrow : newestRow sm.disk key newer with
      | none => rfl
      | some row =>
        by_contra hne
        exact hnone ⟨newer, sst, older, v, row, htables, hnewer, hbad, hvalue, hrow, hne⟩

/-- Whatever `get` returns is the last write to the key, exactly when no table
that it skips has replaced the value. -/
theorem get_keeps_last_write_iff (memtableSizeThreshold : Nat) (ops : List Op) :
    ∃ sm, run memtableSizeThreshold ops = .ok sm ∧ ∀ bad key,
      (∀ v, sm.getWithout bad key = some v → lastWrite (writesOf ops) key = some v) ↔
        ¬sm.BringsBack bad key := by
  obtain ⟨sm, hrun, hlayout, hcontents⟩ := run_ok memtableSizeThreshold ops
  refine ⟨sm, hrun, ?_⟩
  intro bad key
  rw [← hcontents key]
  exact getWithout_eq_contents_iff hlayout bad key

/-- The value and its replacement are in two tables, and the newer one cannot be
read. -/
theorem get_brings_back_replaced :
    ∃ sm, run (4 * 1024 * 1024) [.set "a" "1", .flush, .set "a" "2", .flush] = .ok sm ∧
      sm.getWithout (· == 1) "a" = some "1" ∧
      lastWrite (writesOf [.set "a" "1", .flush, .set "a" "2", .flush]) "a" = some "2" := by
  refine ⟨_, rfl, ?_, ?_⟩ <;> decide

end StateMachine

end OxideKv
