import OxideKv.Lib.Lines
import OxideKv.StateMachine.CrashSafety
import OxideKv.StateMachine.WalJson

/-!
# The lines of the memtable log

`Model` keeps `memtable.wal` as the list of its operations.  Here it is what
`append_wal` and `open` see: one JSON text to a line.  A crash inside
`append_wal` leaves the beginning of a line, and `open` takes the file as it is.

Two things go wrong.  A text that is cut short is no JSON, and `open` gives up on
the first line it cannot read.  A text that is whole but for its newline is read,
but the next `append_wal` goes to the same line, and the `open` after that gives
up.  `Separate` excludes both, and `torn_append_survived` is about every run whose
steps meet it.
-/

namespace OxideKv

open Std Fallible LastWrite ByteReader Lines

namespace StateMachine

/-- Why `open` gives up. -/
inductive OpenError where
  | io (e : IoError)
  /-- `read_line`: the stream did not contain valid UTF-8. -/
  | invalidUtf8
  /-- `WAL replay failed`. -/
  | walReplay
deriving Repr, DecidableEq

variable (json : WalJson)

/-- The text of `append_wal`, without the newline. -/
def payload (op : WalOp) : List UInt8 := utf8 (json.toJson op)

/-- What `writeln!` puts into the file. -/
def walRecord (op : WalOp) : List UInt8 := payload json op ++ [newline]

/-- One turn of the replay loop, on the line that `read_line` returned; `none`
for a blank line. -/
def replayLine (line : List UInt8) : Except OpenError (Option WalOp) :=
  match ofUtf8 line with
  | none => .error .invalidUtf8
  | some s =>
      if trim s = "" then .ok none
      else
        match json.fromStr (trim s) with
        | some op => .ok (some op)
        | none => .error .walReplay

/-- The replay loop of `open`. -/
def replayFile (file : List UInt8) : Except OpenError (List WalOp) := do
  let ops ← (readLines file).mapM (replayLine json)
  return ops.filterMap id

/-- `StateMachine::open` on the tables of `d` and the log `file`: the tables are
discovered before the log is read. -/
def openFile (threshold : Nat) (d : Disk) (file : List UInt8) : Except OpenError StateMachine :=
  match discover d with
  | .error e => .error (.io e)
  | .ok _ =>
      match replayFile json file with
      | .error e => .error e
      | .ok wal => (openStore threshold { d with wal := wal }).mapError .io

/-! ## Reading the log -/

section Replay

theorem payload_ne_nil (op : WalOp) : payload json op ≠ [] := by
  obtain ⟨body, hbody⟩ := json.object op
  rw [payload, hbody, utf8_ofList, List.flatMap_cons]
  intro h
  exact String.utf8EncodeChar_ne_nil (List.append_eq_nil_iff.mp h).1

theorem newline_not_mem_payload (op : WalOp) : newline ∉ payload json op :=
  newline_not_mem_utf8 (json.one_line op)

/-- The line is read with its newline and without. -/
theorem replayLine_padded (op : WalOp) (padding : String)
    (h : ∀ c ∈ padding.toList, isWhitespace c = true) :
    replayLine json (utf8 (json.toJson op ++ padding)) = .ok (some op) := by
  obtain ⟨body, hbody⟩ := json.object op
  have htrim : trim (json.toJson op ++ padding) = json.toJson op := by
    rw [hbody, ← String.ofList_toList (s := padding), ← String.ofList_append]
    exact trim_padded body padding.toList rfl rfl h
  have hne : json.toJson op ≠ "" := by
    rw [hbody]
    intro h
    have := congrArg String.toList h
    simp at this
  rw [replayLine, ofUtf8_utf8]
  dsimp only
  rw [htrim, if_neg hne, json.round_trip]

theorem replayFile_line {file line : List UInt8} {op : WalOp} (hlines : readLines file = [line])
    (hline : replayLine json line = .ok (some op)) : replayFile json file = .ok [op] := by
  rw [replayFile, hlines, List.mapM_cons, hline, List.mapM_nil]
  rfl

theorem replayFile_payload (op : WalOp) : replayFile json (payload json op) = .ok [op] := by
  have hline := replayLine_padded json op "" (by simp)
  rw [String.append_empty] at hline
  exact replayFile_line json
    (readLines_text (payload_ne_nil json op) (newline_not_mem_payload json op)) hline

theorem replayFile_record (op : WalOp) : replayFile json (walRecord json op) = .ok [op] := by
  have hline := replayLine_padded json op "\n" (by simp [isWhitespace])
  have hnew : utf8 "\n" = [newline] := rfl
  rw [utf8_append, hnew] at hline
  exact replayFile_line json (readLines_line (newline_not_mem_payload json op)) hline

/-- What is appended to a whole file is read after it. -/
theorem replayFile_append {file bytes : List UInt8} (hwhole : Whole file) {ops ops' : List WalOp}
    (h : replayFile json file = .ok ops) (h' : replayFile json bytes = .ok ops') :
    replayFile json (file ++ bytes) = .ok (ops ++ ops') := by
  simp only [replayFile] at h h' ⊢
  rw [readLines_append hwhole, List.mapM_append]
  cases hfile : (readLines file).mapM (replayLine json) with
  | error e =>
    rw [hfile] at h
    cases h
  | ok rows =>
    cases hbytes : (readLines bytes).mapM (replayLine json) with
    | error e =>
      rw [hbytes] at h'
      cases h'
    | ok rows' =>
      rw [hfile] at h
      rw [hbytes] at h'
      obtain rfl := Except.ok.inj h
      obtain rfl := Except.ok.inj h'
      show Except.ok ((rows ++ rows').filterMap id) = _
      rw [List.filterMap_append]

end Replay

/-! ## Writes and crashes -/

/-- A store and the bytes of its log. -/
structure LoggedStore where
  sm : StateMachine
  walFile : List UInt8

/-- A call that returns `Ok`, `set` for a value and `delete` for none; or a crash
inside the `append_wal` of such a call, which leaves `written` bytes of the line,
and the `open` that follows it. -/
inductive WalEvent where
  | write (key : String) (value : Option String)
  | crash (key : String) (value : Option String) (written threshold : Nat)

/-- The row takes the memtable to its threshold. -/
def Flushes (key : String) (value : Option String) (sm : StateMachine) : Prop :=
  sm.memtableSizeThreshold ≤ (insertRow key value sm).memtableBytes

instance (key : String) (value : Option String) (sm : StateMachine) :
    Decidable (Flushes key value sm) :=
  inferInstanceAs (Decidable (_ ≤ _))

/-- The store after an event; `none` when a call or `open` fails.  A flush
truncates the log. -/
def walStep (st : LoggedStore) : WalEvent → Option LoggedStore
  | .write key value =>
      match StateMachine.write key value (walOpOf key value) st.sm with
      | (.ok _, sm) =>
          some
            { sm := sm
              walFile :=
                if Flushes key value st.sm then []
                else st.walFile ++ walRecord json (walOpOf key value) }
      | (.error _, _) => none
  | .crash key value written threshold =>
      let file := st.walFile ++ (walRecord json (walOpOf key value)).take written
      match openFile json threshold st.sm.disk file with
      | .ok sm => some { sm := sm, walFile := file }
      | .error _ => none

/-- A crash leaves nothing of its line, or its whole text; and text goes to the
end of a line only if a flush truncates the log in the same call. -/
def Separate (st : LoggedStore) : WalEvent → Prop
  | .write key value => Whole st.walFile ∨ Flushes key value st.sm
  | .crash key value written _ =>
      written = 0 ∨ Whole st.walFile ∧ (payload json (walOpOf key value)).length ≤ written

instance (st : LoggedStore) : (e : WalEvent) → Decidable (Separate json st e)
  | .write _ _ => inferInstanceAs (Decidable (_ ∨ _))
  | .crash _ _ _ _ => inferInstanceAs (Decidable (_ ∨ _))

/-- `ws` has the writes of the calls, in order, and of every interrupted call
its write or nothing. -/
inductive Reflects : List WalEvent → List (String × Option String) → Prop where
  | nil : Reflects [] []
  | write {key value es ws} :
      Reflects es ws → Reflects (.write key value :: es) ((key, value) :: ws)
  | lost {key value written threshold es ws} :
      Reflects es ws → Reflects (.crash key value written threshold :: es) ws
  | kept {key value written threshold es ws} :
      Reflects es ws →
        Reflects (.crash key value written threshold :: es) ((key, value) :: ws)

/-- The bytes of the log are those of the operations it is taken for. -/
structure Refines (st : LoggedStore) : Prop where
  layout : Layout st.sm
  durable : Durable st.sm
  file : replayFile json st.walFile = .ok st.sm.disk.wal

section Step

theorem flush_wal {sm : StateMachine} (h : Layout sm) (hne : ¬sm.memtable.isEmpty = true) :
    (flush sm).2.disk.wal = [] := by
  rw [flush, bind_getThe, if_neg hne, bind_ok (writeTable_ok h.faults _), bind_modify,
    bind_modify, truncateWal_ok (by exact h.faults)]

/-- The log after a write has one operation more, or none after a flush. -/
theorem write_wal {sm : StateMachine} (h : Layout sm) (key : String) (value : Option String) :
    (write key value (walOpOf key value) sm).2.disk.wal =
      if Flushes key value sm then [] else sm.disk.wal ++ [walOpOf key value] := by
  have hlogged := (logged_writes h (walOpOf_logs key value)).layout
  rw [write, bind_ok (appendWal_ok h.faults _), bind_modify, bind_getThe]
  by_cases hflush : Flushes key value sm
  · rw [if_pos hflush]
    have hne : ¬(sm.memtable.insert key ⟨value⟩).isEmpty = true := by simp
    rw [if_pos (by exact hflush)]
    exact flush_wal hlogged hne
  · rw [if_neg hflush, if_neg (by exact hflush)]
    rfl

/-- `open` on a file that holds the operations `ops`. -/
theorem openFile_ok {sm : StateMachine} (h : Layout sm) (hd : Durable sm) {file : List UInt8}
    (hfile : replayFile json file = .ok sm.disk.wal) (threshold : Nat) :
    ∃ sm', openFile json threshold sm.disk file = .ok sm' ∧ Writes sm sm' [] ∧
      sm'.disk.wal = sm.disk.wal := by
  obtain ⟨sm', hopen, hwrites, -⟩ := openStore_ok h hd threshold
  have hdisk : sm'.disk = sm.disk := by
    rw [openStore, discover_ok h] at hopen
    rw [← Except.ok.inj hopen]
  refine ⟨sm', ?_, hwrites, by rw [hdisk]⟩
  rw [openFile, discover_ok h]
  dsimp only
  rw [hfile]
  dsimp only
  rw [hopen]
  rfl

theorem walStep_write {st : LoggedStore} (h : Refines json st) {key : String}
    {value : Option String} (hsep : Separate json st (.write key value)) :
    ∃ st', walStep json st (.write key value) = some st' ∧ Refines json st' ∧
      Writes st.sm st'.sm [(key, value)] := by
  obtain ⟨sm', hwrite, hwrites, -⟩ := write_ok h.layout (walOpOf_logs key value)
  have hwal := write_wal h.layout key value
  rw [hwrite] at hwal
  refine ⟨_, by rw [walStep, hwrite], ⟨hwrites.layout, hwrites.durable h.durable, ?_⟩, hwrites⟩
  show replayFile json (if Flushes key value st.sm then [] else _) = .ok sm'.disk.wal
  rw [hwal]
  by_cases hflush : Flushes key value st.sm
  · rw [if_pos hflush, if_pos hflush]
    rfl
  · rw [if_neg hflush, if_neg hflush]
    have hwhole : Whole st.walFile := hsep.resolve_right hflush
    exact replayFile_append json hwhole h.file (replayFile_record json _)

/-- The whole text of a line, with its newline or without. -/
theorem take_walRecord {op : WalOp} {written : Nat} (h : (payload json op).length ≤ written) :
    (walRecord json op).take written = payload json op ∨
      (walRecord json op).take written = walRecord json op := by
  rcases Nat.eq_or_lt_of_le h with heq | hlt
  · exact Or.inl (by rw [walRecord, ← heq, List.take_left])
  · refine Or.inr (List.take_of_length_le ?_)
    rw [walRecord, List.length_append, List.length_singleton]
    omega

/-- A crash that leaves nothing loses the write, one that leaves the text keeps
it. -/
theorem walStep_crash {st : LoggedStore} (h : Refines json st) {key : String}
    {value : Option String} {written threshold : Nat}
    (hsep : Separate json st (.crash key value written threshold)) :
    ∃ st', walStep json st (.crash key value written threshold) = some st' ∧ Refines json st' ∧
      (Writes st.sm st'.sm [] ∨ Writes st.sm st'.sm [(key, value)]) := by
  rcases hsep with rfl | ⟨hwhole, hwritten⟩
  · obtain ⟨sm', hopen, hwrites, hwal⟩ := openFile_ok json h.layout h.durable h.file threshold
    refine ⟨⟨sm', st.walFile⟩, ?_, ⟨hwrites.layout, hwrites.durable h.durable, ?_⟩,
      Or.inl hwrites⟩
    · rw [walStep, List.take_zero, List.append_nil, hopen]
    · rw [h.file, hwal]
  · -- the directory is that of a store which has logged the row and not flushed
    have hlogged := logged_writes h.layout (walOpOf_logs key value)
    set file := st.walFile ++ (walRecord json (walOpOf key value)).take written with hdef
    have hfile : replayFile json file = .ok (st.sm.disk.wal ++ [walOpOf key value]) := by
      refine replayFile_append json hwhole h.file ?_
      rcases take_walRecord json hwritten with htake | htake <;> rw [htake]
      · exact replayFile_payload json _
      · exact replayFile_record json _
    have hdurable := hlogged.durable h.durable
    obtain ⟨sm', hopen, hwrites, hwal⟩ :=
      openFile_ok json hlogged.layout hdurable hfile threshold
    have hopen' : openFile json threshold st.sm.disk file = .ok sm' := hopen
    refine ⟨⟨sm', file⟩, ?_, ⟨hwrites.layout, hwrites.durable hdurable, ?_⟩,
      Or.inr (hlogged.trans hwrites)⟩
    · rw [walStep, ← hdef, hopen']
    · rw [hfile, hwal]
      rfl

end Step

/-- No step of such a run fails. -/
theorem run_reflects {es : List WalEvent} :
    ∀ {st : LoggedStore}, Refines json st → Run.Along (walStep json) (Separate json) st es →
      ∃ st' ws, Run.run (walStep json) st es = some st' ∧ Reflects es ws ∧
        Writes st.sm st'.sm ws := by
  induction es with
  | nil => exact fun h _ => ⟨_, [], rfl, .nil, Writes.refl h.layout⟩
  | cons e es ih =>
    rintro st h ⟨hsep, hrest⟩
    have hstep : ∃ st₁ ws, walStep json st e = some st₁ ∧ Refines json st₁ ∧
        Writes st.sm st₁.sm ws ∧ ∀ ws', Reflects es ws' → Reflects (e :: es) (ws ++ ws') := by
      cases e with
      | write key value =>
        obtain ⟨st₁, heq, h₁, hw⟩ := walStep_write json h hsep
        exact ⟨st₁, _, heq, h₁, hw, fun _ => .write⟩
      | crash key value written threshold =>
        obtain ⟨st₁, heq, h₁, hw | hw⟩ := walStep_crash json h hsep
        · exact ⟨st₁, _, heq, h₁, hw, fun _ => .lost⟩
        · exact ⟨st₁, _, heq, h₁, hw, fun _ => .kept⟩
    obtain ⟨st₁, ws, heq, h₁, hw, hreflects⟩ := hstep
    obtain ⟨st₂, ws', hrun, hr', hw'⟩ := ih h₁ (hrest st₁ heq)
    exact ⟨st₂, ws ++ ws', Run.run_cons_eq_some.mpr ⟨st₁, heq, hrun⟩, hreflects ws' hr',
      hw.trans hw'⟩

/-- In every run from an empty directory whose steps meet `Separate`, no `open`
fails, and at every point the data of the store is that of the calls which have
returned `Ok`, in order, with the interrupted ones among them or not. -/
theorem torn_append_survived {threshold : Nat} {sm₀ : StateMachine}
    (hempty : openFile json threshold Disk.empty [] = .ok sm₀) {es : List WalEvent}
    (halong : Run.Along (walStep json) (Separate json) ⟨sm₀, []⟩ es) :
    ∀ done, done <+: es →
      ∃ st ws data, Run.run (walStep json) ⟨sm₀, []⟩ done = some st ∧ Reflects done ws ∧
        st.sm.snapshotData = .ok data ∧ ∀ key : String, data[key]? = lastWrite ws key := by
  rintro done ⟨rest, rfl⟩
  obtain ⟨sm', hopen, hlayout, hdurable, htrace, -⟩ := openStore_empty threshold
  obtain rfl : sm' = sm₀ := Except.ok.inj (by
    rw [← hempty]
    show Except.ok sm' = (openStore threshold Disk.empty).mapError .io
    rw [hopen]
    rfl)
  have hwal : sm'.disk.wal = [] := by rw [← Except.ok.inj hopen]; rfl
  have hrefines : Refines json ⟨sm', []⟩ := ⟨hlayout, hdurable, by rw [hwal]; rfl⟩
  obtain ⟨st, ws, hrun, hreflects, hwrites⟩ := run_reflects json hrefines halong.left
  obtain ⟨data, hdata, hget⟩ := snapshotData_ok hwrites.layout
  refine ⟨st, ws, data, hrun, hreflects, hdata, fun key => ?_⟩
  rw [hget key, hwrites.contents key, htrace, List.nil_append]

/-- A key is set, and a crash inside its removal leaves the text of the line. -/
theorem torn_append_survived_without_newline :
    ∃ sm₀ st ws data, openFile WalJson.compactJson 1024 Disk.empty [] = .ok sm₀ ∧
      Run.run (walStep WalJson.compactJson) ⟨sm₀, []⟩
        [.write "k" (some "v"), .crash "k" none 22 1024] = some st ∧
      Reflects [.write "k" (some "v"), .crash "k" none 22 1024] ws ∧
      st.sm.snapshotData = .ok data ∧ ∀ key : String, data[key]? = lastWrite ws key := by
  obtain ⟨sm₀, hempty⟩ : ∃ sm₀, openFile WalJson.compactJson 1024 Disk.empty [] = .ok sm₀ :=
    ⟨_, rfl⟩
  have halong : Run.Along (walStep WalJson.compactJson) (Separate WalJson.compactJson) ⟨sm₀, []⟩
      [.write "k" (some "v"), .crash "k" none 22 1024] := by
    obtain rfl := Except.ok.inj hempty
    decide +kernel
  obtain ⟨st, ws, data, h⟩ :=
    torn_append_survived WalJson.compactJson hempty halong _ (List.prefix_refl _)
  exact ⟨sm₀, st, ws, data, hempty, h⟩

/-- Five bytes of a line are no JSON, and `open` gives up.  A line that lacks only
its newline is read, but the next `set` goes to its end, and the `open` after that
gives up. -/
theorem torn_line_refused :
    ∃ sm₀, openFile WalJson.compactJson 1024 Disk.empty [] = .ok sm₀ ∧
      Run.run (walStep WalJson.compactJson) ⟨sm₀, []⟩
        [.write "k" (some "v"), .crash "k" (some "w") 5 1024] = none ∧
      (Run.run (walStep WalJson.compactJson) ⟨sm₀, []⟩
        [.crash "k" none 22 1024, .write "k" (some "v")]).isSome = true ∧
      Run.run (walStep WalJson.compactJson) ⟨sm₀, []⟩
        [.crash "k" none 22 1024, .write "k" (some "v"), .crash "k" none 0 1024] = none := by
  refine ⟨_, rfl, ?_, ?_, ?_⟩
  · exact Option.isNone_iff_eq_none.mp (by decide +kernel)
  · decide +kernel
  · exact Option.isNone_iff_eq_none.mp (by decide +kernel)

end StateMachine

end OxideKv
