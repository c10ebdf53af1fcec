import OxideKv.StateMachine.Operations

/-!
# Reads after any sequence of operations

`run` executes a sequence of calls, flushes, compactions and reopens on a
fresh directory, and `writesOf` is the trace of the writes in that sequence.
The contents always follow the trace (`run_ok`).  `get` does not: the scan of
a table returns `None` as soon as it passes the key, so a table whose range
covers the key without holding it stands in front of every older table.
`HidesOlderValue` is that layout, and `get_eq_lastWrite_iff` says that it is
the only one in which `get` misses the last write.  `snapshot_data` reads every
row of every table, so nothing hides from it (`snapshotData_eq_last_writes`).
-/

namespace OxideKv

open Fallible LastWrite

/-! ## One table -/

/-- The rows that a handle loads. -/
def SSTableHandle.rows (h : SSTableHandle) (d : Disk) : List SSTEntry :=
  match d.loadSstEntries h.path with
  | .ok entries => entries
  | .error _ => []

/-- The handle loads, its rows are in key order, and its sidecar is theirs. -/
structure SSTableHandle.Wf (h : SSTableHandle) (d : Disk) : Prop where
  load : d.loadSstEntries h.path = .ok (h.rows d)
  rows : StateMachine.RowsWf (h.rows d)
  sidecar : h.sstMeta = StateMachine.sidecarOf h.path (h.rows d)

/-- `get` goes past the table: the key is out of its range, or it has no
rows. -/
def SSTableHandle.passedOver (h : SSTableHandle) (d : Disk) (key : String) : Prop :=
  h.covers key = false ∨ h.rows d = []

namespace StateMachine

/-- A key of a table lies between its first and its last key. -/
theorem covers_of_mem {h : SSTableHandle} {d : Disk} (hwf : h.Wf d) {e : SSTEntry}
    (he : e ∈ h.rows d) : h.covers e.key = true := by
  have hsorted := hwf.rows.sorted
  have hfirst : h.sstMeta.firstKey ≤ e.key := by
    rw [hwf.sidecar]
    cases hrows : h.rows d with
    | nil => rw [hrows] at he; simp at he
    | cons first rest =>
      rw [hrows] at he hsorted
      rcases List.mem_cons.mp he with rfl | he
      · exact le_refl e.key
      · exact ((List.pairwise_cons.mp hsorted).1 e he).le
  have hlast : e.key ≤ h.sstMeta.lastKey := by
    rw [hwf.sidecar]
    rcases List.eq_nil_or_concat (h.rows d) with hrows | ⟨init, last, hrows⟩
    · rw [hrows] at he
      simp at he
    · rw [List.concat_eq_append] at hrows
      rw [hrows] at he hsorted
      have hlastKey : (sidecarOf h.path (h.rows d)).lastKey = last.key := by
        rw [hrows, sidecarOf, List.getLast?_append]
        rfl
      rw [hlastKey]
      rcases List.mem_append.mp he with he | he
      · exact ((List.pairwise_append.mp hsorted).2.2 e he last (by simp)).le
      · rw [List.mem_singleton.mp he]
  rw [SSTableHandle.covers, decide_eq_false hfirst.not_gt, decide_eq_false hlast.not_gt]
  rfl

/-- A table that `get` goes past says nothing about the key. -/
theorem record_of_passedOver {h : SSTableHandle} {d : Disk} (hwf : h.Wf d) {key : String}
    (hpass : h.passedOver d key) : record (rowsOf (h.rows d)) key = none := by
  rw [record_eq_none_iff]
  intro w hw hk
  obtain ⟨e, he, rfl⟩ := List.mem_map.mp hw
  rcases hpass with hcov | hnil
  · rw [← show e.key = key from hk, covers_of_mem hwf he] at hcov
    simp at hcov
  · rw [hnil] at he
    simp at he

/-- The scan finds the row of the key when there is one. -/
theorem scanEntries_of_record {key : String} {rows : List SSTEntry}
    (hrows : rows.Pairwise (fun a b => a.key < b.key)) {r : Option String}
    (hr : record (rowsOf rows) key = some r) : scanEntries key rows = some r := by
  induction rows with
  | nil => simp [rowsOf] at hr
  | cons e rows ih =>
    obtain ⟨hlt, hrows⟩ := List.pairwise_cons.mp hrows
    rw [rowsOf_cons, record_cons, Option.or_eq_some_iff] at hr
    rw [scanEntries]
    rcases hr with hr | ⟨_, hr⟩
    · obtain ⟨e', he', heq⟩ := List.mem_map.mp (mem_of_record hr)
      have hkey : e'.key = key := congrArg Prod.fst heq
      have : compare e.key key = .lt := compare_lt_iff_lt.mpr (hkey ▸ hlt e' he')
      rw [this]
      exact ih hrows hr
    · by_cases hkey : e.key = key
      · rw [if_pos hkey] at hr
        rw [Std.compare_eq_iff_eq.mpr hkey, ← hr]
        rfl
      · simp [hkey] at hr

/-- The scan of a table whose range covers the key without holding it ends
with `return None`. -/
theorem scanEntries_of_hole {key : String} {rows : List SSTEntry}
    (hhole : ∀ e ∈ rows, e.key ≠ key) {e : SSTEntry} (he : e ∈ rows) (hle : key ≤ e.key) :
    scanEntries key rows = some none := by
  induction rows with
  | nil => simp at he
  | cons first rows ih =>
    rw [scanEntries]
    have hne : first.key ≠ key := hhole first List.mem_cons_self
    cases hcmp : compare first.key key with
    | eq => exact absurd (Std.compare_eq_iff_eq.mp hcmp) hne
    | gt => rfl
    | lt =>
      rcases List.mem_cons.mp he with rfl | he
      · exact absurd (compare_lt_iff_lt.mp hcmp) hle.not_gt
      · exact ih (fun x hx => hhole x (List.mem_cons_of_mem _ hx)) he

/-! ## The stack of tables -/

/-- What the tables hold under the key, the newest table first. -/
def tablesShow (d : Disk) (newestFirst : List SSTableHandle) (key : String) : Option String :=
  lastWrite (newestFirst.reverse.flatMap fun h => rowsOf (h.rows d)) key

theorem tablesShow_cons (d : Disk) (h : SSTableHandle) (older : List SSTableHandle)
    (key : String) :
    tablesShow d (h :: older) key =
      (record (rowsOf (h.rows d)) key).getD (tablesShow d older key) := by
  rw [tablesShow, List.reverse_cons, List.flatMap_append, lastWrite_append]
  simp only [List.flatMap_cons, List.flatMap_nil, List.append_nil]
  rfl

/-- A table that covers the key without holding it stands before an older
value. -/
def hidesIn (d : Disk) (key : String) (newestFirst : List SSTableHandle) : Prop :=
  ∃ newer sst older, newestFirst = newer ++ sst :: older ∧
    (∀ h ∈ newer, h.passedOver d key) ∧ ¬sst.passedOver d key ∧
    (∀ e ∈ sst.rows d, e.key ≠ key) ∧ tablesShow d older key ≠ none

theorem hidesIn_cons_of_passedOver {d : Disk} {key : String} {h : SSTableHandle}
    {older : List SSTableHandle} (hpass : h.passedOver d key) :
    hidesIn d key (h :: older) ↔ hidesIn d key older := by
  constructor
  · rintro ⟨newer, sst, rest, heq, hnewer, hnot, hhole, hshow⟩
    cases newer with
    | nil =>
      obtain ⟨rfl, -⟩ := List.cons.inj heq
      exact absurd hpass hnot
    | cons _ newer =>
      obtain ⟨-, heq⟩ := List.cons.inj heq
      exact ⟨newer, sst, rest, heq, fun x hx => hnewer x (List.mem_cons_of_mem _ hx),
        hnot, hhole, hshow⟩
  · rintro ⟨newer, sst, rest, rfl, hnewer, hrest⟩
    refine ⟨h :: newer, sst, rest, rfl, ?_, hrest⟩
    intro x hx
    rcases List.mem_cons.mp hx with rfl | hx
    · exact hpass
    · exact hnewer x hx

theorem hidesIn_cons_of_not_passedOver {d : Disk} {key : String} {h : SSTableHandle}
    {older : List SSTableHandle} (hnot : ¬h.passedOver d key) :
    hidesIn d key (h :: older) ↔
      (∀ e ∈ h.rows d, e.key ≠ key) ∧ tablesShow d older key ≠ none := by
  constructor
  · rintro ⟨newer, sst, rest, heq, hnewer, _, hhole, hshow⟩
    cases newer with
    | nil =>
      obtain ⟨rfl, rfl⟩ := List.cons.inj heq
      exact ⟨hhole, hshow⟩
    | cons x newer =>
      obtain ⟨rfl, -⟩ := List.cons.inj heq
      exact absurd (hnewer _ List.mem_cons_self) hnot
  · rintro ⟨hhole, hshow⟩
    exact ⟨[], h, older, rfl, by simp, hnot, hhole, hshow⟩

/-- A covered table with rows ends in a key at or above the searched one. -/
theorem exists_le_of_not_passedOver {h : SSTableHandle} {d : Disk} (hwf : h.Wf d) {key : String}
    (hnot : ¬h.passedOver d key) : ∃ e ∈ h.rows d, key ≤ e.key := by
  rw [SSTableHandle.passedOver, not_or, Bool.not_eq_false] at hnot
  obtain ⟨hcov, hrows⟩ := hnot
  obtain ⟨init, last, hlast⟩ := (List.eq_nil_or_concat (h.rows d)).resolve_left hrows
  rw [List.concat_eq_append] at hlast
  refine ⟨last, by rw [hlast]; simp, ?_⟩
  have hkey : h.sstMeta.lastKey = last.key := by
    rw [hwf.sidecar, sidecarOf, hlast, List.getLast?_append]
    rfl
  rw [SSTableHandle.covers, Bool.not_eq_true', Bool.or_eq_false_iff] at hcov
  have := of_decide_eq_false hcov.2
  rw [hkey] at this
  exact not_lt.mp this

/-- `get` over the tables returns what they hold, unless a table hides it. -/
theorem getFromTables_eq_iff {d : Disk} (key : String) :
    ∀ tables : List SSTableHandle, (∀ h ∈ tables, h.Wf d) →
      (getFromTables d key tables = tablesShow d tables key ↔ ¬hidesIn d key tables) := by
  intro tables
  induction tables with
  | nil =>
    intro _
    refine iff_of_true rfl ?_
    rintro ⟨newer, sst, older, heq, -⟩
    exact absurd heq (by simp)
  | cons h older ih =>
    intro hwf
    have hh := hwf h List.mem_cons_self
    have ih := ih fun x hx => hwf x (List.mem_cons_of_mem _ hx)
    by_cases hpass : h.passedOver d key
    · have hget : getFromTables d key (h :: older) = getFromTables d key older := by
        rw [getFromTables]
        split
        · rename_i hcov
          have hnil : h.rows d = [] := by
            rcases hpass with hfalse | hnil
            · rw [hcov] at hfalse
              simp at hfalse
            · exact hnil
          rw [hh.load, hnil]
          rfl
        · rfl
      rw [hget, hidesIn_cons_of_passedOver hpass, tablesShow_cons,
        record_of_passedOver hh hpass, Option.getD_none, ih]
    · have hcov : h.covers key = true := by
        rw [SSTableHandle.passedOver, not_or, Bool.not_eq_false] at hpass
        exact hpass.1
      rw [hidesIn_cons_of_not_passedOver hpass, getFromTables, if_pos hcov, hh.load,
        tablesShow_cons]
      dsimp only
      cases hr : record (rowsOf (h.rows d)) key with
      | some r =>
        rw [scanEntries_of_record hh.rows.sorted hr]
        refine iff_of_true rfl fun hcontra => ?_
        obtain ⟨e, he, heq⟩ := List.mem_map.mp (mem_of_record hr)
        exact hcontra.1 e he (congrArg Prod.fst heq)
      | none =>
        have hhole : ∀ e ∈ h.rows d, e.key ≠ key := fun e he =>
          (record_eq_none_iff _ key).mp hr (e.key, e.shown) (List.mem_map.mpr ⟨e, he, rfl⟩)
        obtain ⟨e, he, hle⟩ := exists_le_of_not_passedOver hh hpass
        rw [scanEntries_of_hole hhole he hle, Option.getD_none]
        dsimp only
        constructor
        · rintro heq ⟨_, hshow⟩
          exact hshow heq.symm
        · intro hnot
          by_contra hne
          exact hnot ⟨hhole, fun hnone => hne hnone.symm⟩

/-! ## The whole store -/

/-- A table hides the value that `key` has in an older table. -/
def HidesOlderValue (sm : StateMachine) (key : String) : Prop :=
  sm.memtable[key]? = none ∧ hidesIn sm.disk key sm.sstables.reverse

theorem Layout.handleWf {sm : StateMachine} (h : Layout sm) :
    ∀ sst ∈ sm.sstables, sst.Wf sm.disk := by
  intro sst hsst
  rw [h.handles] at hsst
  obtain ⟨f, hf, rfl⟩ := List.mem_map.mp hsst
  have hload := h.readable.loadSstEntries hf
  have hrows : SSTableHandle.rows { path := f.1, sstMeta := sidecarOf f.1 f.2 } sm.disk = f.2 := by
    rw [SSTableHandle.rows, hload]
  refine ⟨?_, ?_, ?_⟩
  · rw [hrows]
    exact hload
  · rw [hrows]
    exact h.rows f hf
  · rw [hrows]

theorem Layout.tablesShow {sm : StateMachine} (h : Layout sm) (key : String) :
    StateMachine.tablesShow sm.disk sm.sstables.reverse key =
      lastWrite (tableTrace sm.disk) key := by
  rw [StateMachine.tablesShow, List.reverse_reverse, h.handles, List.flatMap_map, tableTrace]
  congr 1
  apply List.flatMap_congr
  intro f hf
  rw [SSTableHandle.rows, h.readable.loadSstEntries hf]

/-- `get` returns the contents of the key, unless a table hides them. -/
theorem get_eq_contents_iff {sm : StateMachine} (h : Layout sm) (key : String) :
    sm.get key = sm.contents key ↔ ¬sm.HidesOlderValue key := by
  rw [get, contents, trace, lastWrite_append, record_memtable, HidesOlderValue]
  cases hm : sm.memtable[key]? with
  | some entry => simp
  | none =>
    rw [Option.map_none, Option.getD_none, ← h.tablesShow]
    have hwf : ∀ sst ∈ sm.sstables.reverse, sst.Wf sm.disk := fun sst hsst =>
      h.handleWf sst (List.mem_reverse.mp hsst)
    simp only [true_and]
    exact getFromTables_eq_iff key sm.sstables.reverse hwf

/-! ## Sequences of operations -/

/-- A call on the store, or a close and reopen of its directory. -/
inductive Op where
  | set (key value : String)
  | delete (key : String)
  | flush
  | compact
  | beginTx (txId : String) (ops : List TxOp) (nowUnixMs : Nat)
  | decideTx (txId : String) (decision : TxDecision)
  | reopen
deriving Repr, DecidableEq

/-- The state after a call, or its error. -/
def finish (r : Except IoError Unit × StateMachine) : Except IoError StateMachine :=
  match r.1 with
  | .ok _ => .ok r.2
  | .error e => .error e

/-- Execute one operation. -/
def exec (sm : StateMachine) : Op → Except IoError StateMachine
  | .set key value => finish (StateMachine.set key value sm)
  | .delete key => finish (StateMachine.delete key sm)
  | .flush => finish (StateMachine.flush sm)
  | .compact => finish (StateMachine.compact sm)
  | .beginTx txId ops nowUnixMs => finish (StateMachine.beginTx txId ops nowUnixMs sm)
  | .decideTx txId decision => finish (StateMachine.decideTx txId decision sm)
  | .reopen => openStore sm.memtableSizeThreshold sm.disk

/-- Execute a sequence of operations on a fresh directory in which no file
operation fails. -/
def run (memtableSizeThreshold : Nat) (ops : List Op) : Except IoError StateMachine := do
  let sm ← openStore memtableSizeThreshold Disk.empty
  ops.foldlM exec sm

/-- The transactions in flight after an operation, by id.  They live in
memory only, so a reopen forgets them. -/
def stagedAfter (staged : String → Option (List TxOp)) : Op → String → Option (List TxOp)
  | .beginTx txId ops _ => Function.update staged txId (some ops)
  | .decideTx txId _ => Function.update staged txId none
  | .reopen => fun _ => none
  | _ => staged

/-- The writes of one operation. -/
def opWrites (staged : String → Option (List TxOp)) : Op → List (String × Option String)
  | .set key value => [(key, some value)]
  | .delete key => [(key, none)]
  | .decideTx txId decision => decisionWrites (staged txId) decision
  | _ => []

/-- The writes of a sequence, in order. -/
def writesFrom (staged : String → Option (List TxOp)) : List Op → List (String × Option String)
  | [] => []
  | op :: ops => opWrites staged op ++ writesFrom (stagedAfter staged op) ops

/-- The writes of a sequence that starts on an empty store. -/
def writesOf (ops : List Op) : List (String × Option String) :=
  writesFrom (fun _ => none) ops

/-- One operation succeeds, and writes what `opWrites` says. -/
theorem exec_ok {sm : StateMachine} (h : Layout sm) (hd : Durable sm) (op : Op) :
    ∃ sm', exec sm op = .ok sm' ∧ Writes sm sm' (opWrites sm.staged op) ∧
      sm'.staged = stagedAfter sm.staged op := by
  cases op with
  | set key value =>
    obtain ⟨sm', heq, hw, hp⟩ := set_ok h key value
    exact ⟨sm', by rw [exec, heq]; rfl, hw, staged_congr hp⟩
  | delete key =>
    obtain ⟨sm', heq, hw, hp⟩ := delete_ok h key
    exact ⟨sm', by rw [exec, heq]; rfl, hw, staged_congr hp⟩
  | flush =>
    obtain ⟨sm', heq, hw, hp⟩ := flush_ok h
    exact ⟨sm', by rw [exec, heq]; rfl, hw, staged_congr hp⟩
  | compact =>
    obtain ⟨sm', heq, hw, hp⟩ := compact_ok h
    exact ⟨sm', by rw [exec, heq]; rfl, hw, staged_congr hp⟩
  | beginTx txId ops nowUnixMs =>
    obtain ⟨sm', heq, hw, hp⟩ := beginTx_ok h txId ops nowUnixMs
    exact ⟨sm', by rw [exec, heq]; rfl, hw, hp⟩
  | decideTx txId decision =>
    obtain ⟨sm', heq, hw, hp⟩ := decideTx_ok h txId decision
    exact ⟨sm', by rw [exec, heq]; rfl, hw, hp⟩
  | reopen =>
    obtain ⟨sm', heq, hw, hp⟩ := openStore_ok h hd sm.memtableSizeThreshold
    exact ⟨sm', heq, hw, staged_of_empty hp⟩

/-- A sequence of operations succeeds, and writes what `writesFrom` says. -/
theorem foldlM_exec_ok (ops : List Op) :
    ∀ {sm : StateMachine}, Layout sm → Durable sm →
      ∃ sm', ops.foldlM exec sm = .ok sm' ∧ Writes sm sm' (writesFrom sm.staged ops) := by
  induction ops with
  | nil => exact fun h _ => ⟨_, rfl, Writes.refl h⟩
  | cons op ops ih =>
    intro sm h hd
    obtain ⟨sm₁, hexec, hw₁, hstaged⟩ := exec_ok h hd op
    obtain ⟨sm₂, hrest, hw₂⟩ := ih hw₁.layout (hw₁.durable hd)
    refine ⟨sm₂, ?_, ?_⟩
    · rw [List.foldlM_cons, hexec]
      exact hrest
    · rw [writesFrom, ← hstaged]
      exact hw₁.trans hw₂

/-- After any sequence of operations the contents are the last writes. -/
theorem run_ok (memtableSizeThreshold : Nat) (ops : List Op) :
    ∃ sm, run memtableSizeThreshold ops = .ok sm ∧ Layout sm ∧
      ∀ key, sm.contents key = lastWrite (writesOf ops) key := by
  obtain ⟨sm₀, hopen, hlayout, hdurable, htrace, hpend⟩ := openStore_empty memtableSizeThreshold
  obtain ⟨sm, hrun, hw⟩ := foldlM_exec_ok ops hlayout hdurable
  have hstaged := staged_of_empty hpend
  refine ⟨sm, ?_, hw.layout, fun key => ?_⟩
  · rw [run, hopen]
    exact hrun
  · rw [hw.contents key, htrace, List.nil_append, hstaged]
    rfl

/-- After any sequence of operations `get` returns the last write to the key
exactly when no table hides the value of an older one. -/
theorem get_eq_lastWrite_iff (memtableSizeThreshold : Nat) (ops : List Op) :
    ∃ sm, run memtableSizeThreshold ops = .ok sm ∧
      ∀ key, sm.get key = lastWrite (writesOf ops) key ↔ ¬sm.HidesOlderValue key := by
  obtain ⟨sm, hrun, hlayout, hcontents⟩ := run_ok memtableSizeThreshold ops
  refine ⟨sm, hrun, fun key => ?_⟩
  rw [← hcontents key]
  exact get_eq_contents_iff hlayout key

/-- After any sequence of operations `snapshot_data` is the map of the last
writes, whatever `get` sees of it. -/
theorem snapshotData_eq_last_writes (memtableSizeThreshold : Nat) (ops : List Op) :
    ∃ sm data, run memtableSizeThreshold ops = .ok sm ∧ snapshotData sm = .ok data ∧
      ∀ key value, data[key]? = some value ↔ record (writesOf ops) key = some (some value) := by
  obtain ⟨sm, hrun, hlayout, hcontents⟩ := run_ok memtableSizeThreshold ops
  obtain ⟨data, hdata, hget⟩ := snapshotData_ok hlayout
  refine ⟨sm, data, hrun, hdata, fun key value => ?_⟩
  rw [hget key, hcontents key, lastWrite, Option.join_eq_some_iff]

/-- A flush of `b`, then one of `a` and `c`: the newer table covers `b`
without holding it, and `get` loses the value. -/
theorem get_misses_older_table :
    ∃ sm, run (4 * 1024 * 1024)
        [.set "b" "1", .flush, .set "a" "2", .set "c" "3", .flush] = .ok sm ∧
      sm.get "b" = none ∧
      lastWrite (writesOf [.set "b" "1", .flush, .set "a" "2", .set "c" "3", .flush]) "b" =
        some "1" := by
  refine ⟨_, rfl, ?_, ?_⟩ <;> decide

end StateMachine

end OxideKv
