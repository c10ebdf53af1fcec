import OxideKv.Raft.ReferenceModel

/-!
# Replay over a store that survived

The LSM store is durable and the transactions in flight are not.  A process
that stops while it applies a log and starts again therefore replays the whole
log onto data that hold a part of its writes already, with no transaction
staged.

`Progress` is a process on its way through a log, down to the single
operations of a transaction that is being committed.  `replay_logs` is a run of
it (`replayLogs_is_run`).  It can stop at every point and any number of times,
and `flush` and `compact` can come in between.
What it has written so far are writes of the log, so a last full pass over the
log decides every one of their keys again (`replay_after_stop`).
-/

namespace OxideKv

open Fallible LastWrite Run StateMachine RaftNode

/-- A process on its way through the commands of a log. -/
structure Progress where
  log : List Command
  store : StateMachine
  /-- The operations of the committed transaction that are still to come. -/
  ops : List TxOp
  /-- The commands still to come. -/
  rest : List Command

inductive ProgressEvent where
  | command (unixMs : Nat)
  | op
  | flush
  | compact
  | stop (memtableSizeThreshold : Nat)

namespace Progress

/-- The next command.  The operations of a committed transaction are left for
later; `decide_tx` has taken the transaction out before the first of them. -/
def start (unixMs : Nat) (c : Command) (rest : List Command) (p : Progress) : Progress :=
  match c with
  | .decideTx txId .commit =>
      match p.store.pendingTxs[txId]? with
      | some tx =>
          { p with
            store := { p.store with pendingTxs := p.store.pendingTxs.erase txId }
            ops := tx.ops
            rest := rest }
      | none => { p with rest := rest }
  | c => { p with store := (applyToStore unixMs c p.store).2, rest := rest }

/-- `stop` is the end of the process and the start of the next one, up to the
first entry that it replays. -/
def step (p : Progress) : ProgressEvent → Option Progress
  | .command unixMs =>
      match p.ops, p.rest with
      | [], c :: rest => some (p.start unixMs c rest)
      | _, _ => none
  | .op =>
      match p.ops with
      | [] => none
      | op :: ops => some { p with store := (applyTxOp op p.store).2, ops := ops }
  | .flush => some { p with store := (StateMachine.flush p.store).2 }
  | .compact => some { p with store := (StateMachine.compact p.store).2 }
  | .stop threshold =>
      match openStore threshold p.store.disk with
      | .error _ => none
      | .ok sm => some { p with store := sm, ops := [], rest := p.log }

/-! ## The steps and the source -/

theorem forM_applyTxOp_eq (ops : List TxOp) :
    ∀ sm : StateMachine,
      (ops.forM applyTxOp) sm = (.ok (), ops.foldl (fun sm op => (applyTxOp op sm).2) sm) := by
  induction ops with
  | nil => exact fun _ => rfl
  | cons op ops ih =>
    intro sm
    have hok : applyTxOp op sm = (.ok (), (applyTxOp op sm).2) := by cases op <;> rfl
    rw [List.forM, bind_ok hok]
    exact ih _

/-- The operations that are left, one after the other. -/
theorem run_ops (ops : List TxOp) :
    ∀ p : Progress, p.ops = ops →
      run step p (ops.map fun _ => .op) =
        some { p with store := (ops.forM applyTxOp p.store).2, ops := [] } := by
  induction ops with
  | nil =>
    rintro ⟨log, store, _, rest⟩ rfl
    rfl
  | cons op ops ih =>
    intro p hops
    have hstep : step p .op = some { p with store := (applyTxOp op p.store).2, ops := ops } := by
      rw [step, hops]
    rw [List.map_cons, run, hstep, Option.bind_some, ih _ rfl, forM_applyTxOp_eq,
      forM_applyTxOp_eq, List.foldl_cons]

/-- A command and the operations it leaves are what `apply_logs` and
`replay_logs` do to the store. -/
theorem run_command {p : Progress} {c : Command} {rest : List Command} (hops : p.ops = [])
    (hrest : p.rest = c :: rest) (unixMs : Nat) :
    ∃ k, run step p (.command unixMs :: List.replicate k .op) =
      some { p with store := (applyToStore unixMs c p.store).2, rest := rest } := by
  have hstep : step p (.command unixMs) = some (p.start unixMs c rest) := by
    rw [step, hops, hrest]
  have hplain : p.start unixMs c rest =
        { p with store := (applyToStore unixMs c p.store).2, rest := rest } →
      ∃ k, run step p (.command unixMs :: List.replicate k .op) =
        some { p with store := (applyToStore unixMs c p.store).2, rest := rest } := by
    intro heq
    refine ⟨0, ?_⟩
    rw [run, hstep, Option.bind_some, heq]
    rfl
  cases c with
  | decideTx txId decision =>
    cases decision with
    | abort => exact hplain rfl
    | commit =>
      cases htx : p.store.pendingTxs[txId]? with
      | none =>
        refine hplain ?_
        unfold start
        dsimp only [applyToStore]
        rw [decideTx, bind_getThe, htx]
        rfl
      | some tx =>
        refine ⟨tx.ops.length, ?_⟩
        have hstart : p.start unixMs (.decideTx txId .commit) rest =
            { p with
              store := { p.store with pendingTxs := p.store.pendingTxs.erase txId }
              ops := tx.ops
              rest := rest } := by
          unfold start
          dsimp only
          rw [htx]
        rw [run, hstep, Option.bind_some, hstart, ← List.map_const', run_ops tx.ops _ rfl]
        dsimp only [applyToStore]
        rw [decideTx, bind_getThe, htx, hops]
        rfl
  | _ => exact hplain rfl

theorem replayCommand_store (unixMs : Nat) (c : Command) (n : RaftNode) :
    (replayCommand unixMs c n).stateMachine = (applyToStore unixMs c n.stateMachine).2 := by
  cases c <;> rfl

/-- The rest of a log, command by command. -/
theorem run_replay (clock : Clock) (entries : List (LogEntry × Nat)) :
    ∀ {p : Progress} {n : RaftNode}, p.ops = [] → p.rest = entries.map (fun e => e.1.command) →
      p.store = n.stateMachine →
      ∃ es, (∀ e ∈ es, (∃ unixMs, e = .command unixMs) ∨ e = .op) ∧
        run step p es = some
          { p with
            store := (entries.foldl
              (fun n e => replayCommand (clock.unixMs e.2) e.1.command n) n).stateMachine
            rest := [] } := by
  induction entries with
  | nil =>
    rintro ⟨log, store, ops, rest⟩ n rfl hrest rfl
    obtain rfl : rest = [] := hrest
    exact ⟨[], nofun, rfl⟩
  | cons entry entries ih =>
    intro p n hops hrest hstore
    obtain ⟨k, hk⟩ := run_command hops hrest (clock.unixMs entry.2)
    have hnext : (applyToStore (clock.unixMs entry.2) entry.1.command p.store).2 =
        (replayCommand (clock.unixMs entry.2) entry.1.command n).stateMachine := by
      rw [replayCommand_store, hstore]
    obtain ⟨es, hes, hrun⟩ := @ih
      { p with
        store := (applyToStore (clock.unixMs entry.2) entry.1.command p.store).2
        rest := entries.map fun e => e.1.command }
      (replayCommand (clock.unixMs entry.2) entry.1.command n) hops rfl hnext
    refine ⟨.command (clock.unixMs entry.2) :: List.replicate k .op ++ es, fun e he => ?_,
      run_append_eq_some.mpr ⟨_, hk, hrun⟩⟩
    rcases List.mem_append.mp he with he | he
    · rcases List.mem_cons.mp he with rfl | he
      · exact Or.inl ⟨_, rfl⟩
      · exact Or.inr (List.eq_of_mem_replicate he)
    · exact hes e he

/-- A process that begins with the log on a store. -/
def begin (log : List LogEntry) (sm : StateMachine) : Progress :=
  { log := log.map LogEntry.command, store := sm, ops := [], rest := log.map LogEntry.command }

/-- `replay_logs` is a run of such a process that is not interrupted. -/
theorem replayLogs_is_run (clock : Clock) (n : RaftNode) :
    ∃ es, (∀ e ∈ es, (∃ unixMs, e = .command unixMs) ∨ e = .op) ∧
      run step (begin n.log n.stateMachine) es = some
        { begin n.log n.stateMachine with
          store := (replayLogs clock n).stateMachine
          rest := [] } := by
  have hcommands : (begin n.log n.stateMachine).rest =
      n.log.zipIdx.map fun e => e.1.command := by
    show n.log.map LogEntry.command = n.log.zipIdx.map (LogEntry.command ∘ Prod.fst)
    rw [← List.map_map, List.zipIdx_map_fst]
  exact run_replay clock n.log.zipIdx rfl hcommands rfl

/-! ## What a process has written -/

/-- The writes of the whole log. -/
def writes (p : Progress) : List (String × Option String) := logWrites Staged.none p.log

/-- The process has written `before` in its earlier lives and `done` in this
one, all of them writes of the log; what is left of the log are the operations
and the commands to come. -/
structure Sound (p : Progress) : Prop where
  layout : Layout p.store
  durable : Durable p.store
  written : ∃ before done,
    (∀ key, p.store.contents key = lastWrite (before ++ done) key) ∧
    (∀ w ∈ before, record p.writes w.1 ≠ none) ∧
    p.writes = done ++ (p.ops.map txOpWrite ++ logWrites p.store.staged p.rest)

/-- A step of the store that writes the next writes of the log. -/
theorem Sound.advance {p p' : Progress} (h : Sound p) {ws : List (String × Option String)}
    (hw : Writes p.store p'.store ws) (hlog : p'.log = p.log)
    (hleft : p.ops.map txOpWrite ++ logWrites p.store.staged p.rest =
      ws ++ (p'.ops.map txOpWrite ++ logWrites p'.store.staged p'.rest)) : Sound p' := by
  obtain ⟨before, done, hcontents, hbefore, heq⟩ := h.written
  refine ⟨hw.layout, hw.durable h.durable, before, done ++ ws, fun key => ?_, ?_, ?_⟩
  · rw [hw.contents key, ← List.append_assoc]
    exact lastWrite_append_congr hcontents ws key
  · rw [writes, hlog]
    exact hbefore
  · rw [writes, hlog, ← writes, heq, hleft, List.append_assoc]

theorem Sound.start {p : Progress} (h : Sound p) (hops : p.ops = []) {c : Command}
    {rest : List Command} (hrest : p.rest = c :: rest) (unixMs : Nat) :
    Sound (p.start unixMs c rest) := by
  have happly : Sound { p with store := (applyToStore unixMs c p.store).2, rest := rest } := by
    obtain ⟨sm, heq, hw, hstaged⟩ := applyToStore_ok h.layout unixMs c
    rw [heq]
    refine h.advance hw rfl ?_
    dsimp only
    rw [hops, hrest, hstaged]
    rfl
  cases c with
  | decideTx txId decision =>
    cases decision with
    | abort => exact happly
    | commit =>
      unfold Progress.start
      dsimp only
      cases htx : p.store.pendingTxs[txId]? with
      | none =>
        have hnone : p.store.staged txId = none := by
          rw [staged, htx]
          rfl
        have hsame : Function.update p.store.staged txId none = p.store.staged :=
          Function.update_eq_self_iff.mpr hnone.symm
        refine h.advance (Writes.refl h.layout) rfl ?_
        dsimp only
        rw [hops, hrest, logWrites, Command.writes, Command.stagedAfter, hsame, hnone]
        rfl
      | some tx =>
        have hsome : p.store.staged txId = some tx.ops := by
          rw [staged, htx]
          rfl
        have hstaged : ({ p.store with
            pendingTxs := p.store.pendingTxs.erase txId } : StateMachine).staged =
              Function.update p.store.staged txId none := by
          funext id
          rw [staged, Std.TreeMap.getElem?_erase, Function.update_apply]
          by_cases hid : txId = id
          · simp [hid]
          · simp [hid, Ne.symm hid, staged]
        have hw : Writes p.store
            { p.store with pendingTxs := p.store.pendingTxs.erase txId } [] :=
          ⟨⟨h.layout.faults, h.layout.handles, h.layout.sidecars, h.layout.ids, h.layout.next,
            h.layout.rows⟩, id, (Writes.refl h.layout).contents⟩
        refine h.advance hw rfl ?_
        dsimp only
        rw [hops, hrest, hstaged, logWrites, Command.writes, Command.stagedAfter, hsome]
        rfl
  | _ => exact happly

/-- Every step keeps `Sound`. -/
theorem step_sound {p p' : Progress} {e : ProgressEvent} (h : Sound p)
    (hstep : step p e = some p') : Sound p' := by
  cases e with
  | command unixMs =>
    rw [step] at hstep
    split at hstep
    · rename_i c rest hops hrest
      obtain rfl := Option.some.inj hstep
      exact h.start hops hrest unixMs
    · cases hstep
  | op =>
    rw [step] at hstep
    split at hstep
    · cases hstep
    · rename_i op ops hops
      obtain rfl := Option.some.inj hstep
      obtain ⟨sm, heq, hw, hp⟩ := applyTxOp_ok h.layout op
      rw [heq]
      refine h.advance hw rfl ?_
      dsimp only
      rw [hops, staged_congr hp]
      rfl
  | flush =>
    obtain rfl := Option.some.inj hstep
    obtain ⟨sm, heq, hw, hp⟩ := flush_ok h.layout
    rw [heq]
    refine h.advance hw rfl ?_
    rw [staged_congr hp]
    rfl
  | compact =>
    obtain rfl := Option.some.inj hstep
    obtain ⟨sm, heq, hw, hp⟩ := compact_ok h.layout
    rw [heq]
    refine h.advance hw rfl ?_
    rw [staged_congr hp]
    rfl
  | stop threshold =>
    obtain ⟨sm, hopen, hw, hpend⟩ := openStore_ok h.layout h.durable threshold
    rw [step, hopen] at hstep
    obtain rfl := Option.some.inj hstep
    obtain ⟨before, done, hcontents, hbefore, heq⟩ := h.written
    refine ⟨hw.layout, hw.durable h.durable, before ++ done, [], fun key => ?_, ?_, ?_⟩
    · rw [hw.same key, List.append_nil, hcontents key]
    · -- what this life has written is written again by the next one
      intro w hmem
      rcases List.mem_append.mp hmem with hmem | hmem
      · exact hbefore w hmem
      · show record p.writes w.1 ≠ none
        rw [heq]
        exact record_append_ne_none hmem _
    · dsimp only
      rw [staged_of_empty hpend]
      rfl

theorem run_sound {p p' : Progress} {es : List ProgressEvent} (h : Sound p)
    (hrun : run step p es = some p') : Sound p' ∧ p'.log = p.log := by
  have hlog : ∀ {p p' : Progress} {e : ProgressEvent}, step p e = some p' → p'.log = p.log := by
    intro p p' e hstep
    cases e <;> rw [step] at hstep
    · split at hstep
      · rename_i c rest _ _
        obtain rfl := Option.some.inj hstep
        unfold Progress.start
        split
        · split <;> rfl
        · rfl
      · cases hstep
    · split at hstep
      · cases hstep
      · obtain rfl := Option.some.inj hstep
        rfl
    · obtain rfl := Option.some.inj hstep
      rfl
    · obtain rfl := Option.some.inj hstep
      rfl
    · split at hstep
      · cases hstep
      · obtain rfl := Option.some.inj hstep
        rfl
  refine run_invariant (P := fun _ _ => True) (I := fun q => Sound q ∧ q.log = p.log) ?_ ⟨h, rfl⟩
    (along_of_forall (fun _ _ => trivial) es p) hrun
  intro s s' e hs _ hstep
  exact ⟨step_sound hs.1 hstep, (hlog hstep).trans hs.2⟩

/-- On an empty directory nothing is written yet. -/
theorem begin_sound {threshold : Nat} {sm : StateMachine}
    (hopen : openStore threshold Disk.empty = .ok sm) (log : List LogEntry) :
    Sound (begin log sm) := by
  obtain ⟨sm', hopen', hlayout, hdurable, htrace, hpend⟩ := openStore_empty threshold
  obtain rfl : sm = sm' := Except.ok.inj (hopen.symm.trans hopen')
  refine ⟨hlayout, hdurable, [], [], fun key => ?_, by simp, ?_⟩
  · show sm.contents key = _
    rw [StateMachine.contents, htrace]
    rfl
  · show logWrites Staged.none _ = [] ++ ([] ++ logWrites sm.staged _)
    rw [staged_of_empty hpend]
    rfl

/-- Wherever a process stops on its way through a log, the next one opens the
store, finds no transaction in flight, and by `replay_logs` of the whole log
comes to the data and the transactions that `apply_logs` of the log makes on
an empty store.  `n` is the node of the next process, `m` one that applies the
log to an empty store. -/
theorem replay_after_stop {threshold : Nat} {sm : StateMachine} {log : List LogEntry}
    (hempty : openStore threshold Disk.empty = .ok sm) {es : List ProgressEvent} {p : Progress}
    (hrun : run step (begin log sm) es = some p) (threshold' : Nat) (clock clock' : Clock) :
    ∃ sm', openStore threshold' p.store.disk = .ok sm' ∧ sm'.pendingTxs = ∅ ∧
      ∀ n m : RaftNode, n.log = log → n.stateMachine = sm' →
        m.log = log → m.stateMachine = sm → m.state = .follower → m.lastApplied = 0 →
        m.commitIndex = log.length →
        (∃ replayed applied,
          (replayLogs clock n).stateMachine.snapshotData = .ok replayed ∧
          (applyLogs clock' m).stateMachine.snapshotData = .ok applied ∧
          ∀ key : String, replayed[key]? = applied[key]?) ∧
        (replayLogs clock n).stateMachine.staged = (applyLogs clock' m).stateMachine.staged := by
  obtain ⟨hsound, hlog⟩ := run_sound (begin_sound hempty log) hrun
  obtain ⟨sm', hopen, hw, hpend⟩ := openStore_ok hsound.layout hsound.durable threshold'
  refine ⟨sm', hopen, hpend, ?_⟩
  rintro n m rfl rfl hmlog rfl hstate happlied hcommit
  rw [applyLogs_eq_replayLogs clock' (by rw [hstate]; simp) happlied (by rw [hcommit, hmlog])]
  obtain ⟨hlayout', hcontents', hstaged'⟩ := replayLogs_effect clock' hempty
  have happ := replayLogs_ok clock hw.layout
  obtain ⟨replayed, hreplayed, hget⟩ := snapshotData_ok happ.writes.layout
  obtain ⟨applied, happlied', hget'⟩ := snapshotData_ok hlayout'
  have hstaged : n.stateMachine.staged = Staged.none := staged_of_empty hpend
  refine ⟨⟨replayed, applied, hreplayed, happlied', fun key => ?_⟩, ?_⟩
  · obtain ⟨before, done, hcontents, hbefore, heq⟩ := hsound.written
    have hwrites : p.writes = logWrites Staged.none (n.log.map LogEntry.command) := by
      rw [writes, hlog]
      rfl
    rw [hget key, hget' key, hcontents' key, happ.writes.apply key, hw.same key, hcontents key,
      ← lastWrite_append, hstaged, hmlog, ← hwrites]
    refine lastWrite_append_of_covers (fun w hmem => ?_) key
    rcases List.mem_append.mp hmem with hmem | hmem
    · exact hbefore w hmem
    · rw [heq]
      exact record_append_ne_none hmem _
  · rw [happ.staged, hstaged, hstaged', hmlog]

/-- A log with a transaction of three operations. -/
def commitLog : List LogEntry :=
  [⟨1, 1, .set "k" "0"⟩, ⟨1, 2, .beginTx "t" [.put "k" "1", .put "j" "2", .delete "k"]⟩,
    ⟨1, 3, .decideTx "t" .commit⟩]

/-- The process stops after two of the three operations and a flush, replays
the first entry, and stops again. -/
theorem replay_after_stop_in_commit :
    ∃ p sm', run step (begin commitLog freshStore)
        [.command 0, .command 0, .command 0, .op, .flush, .op, .stop 64, .command 0] = some p ∧
      p.rest.length = 2 ∧ openStore 64 p.store.disk = .ok sm' ∧
      ∃ replayed applied,
        (replayLogs someClock { freshNode "a" ["b"] with
          log := commitLog, stateMachine := sm' }).stateMachine.snapshotData = .ok replayed ∧
        (applyLogs someClock { freshNode "a" ["b"] with
          log := commitLog, commitIndex := 3 }).stateMachine.snapshotData = .ok applied ∧
        ∀ key : String, replayed[key]? = applied[key]? := by
  obtain ⟨p, hrun, hrest⟩ : ∃ p, run step (begin commitLog freshStore)
      [.command 0, .command 0, .command 0, .op, .flush, .op, .stop 64, .command 0] = some p ∧
      p.rest.length = 2 := exists_run_of_any (by decide +kernel)
  obtain ⟨sm', hopen, -, hagree⟩ :=
    replay_after_stop openStore_eq_freshStore hrun 64 someClock someClock
  have hdata := hagree { freshNode "a" ["b"] with log := commitLog, stateMachine := sm' }
    { freshNode "a" ["b"] with log := commitLog, commitIndex := 3 } rfl rfl rfl rfl rfl rfl rfl
  exact ⟨p, sm', hrun, hrest, hopen, hdata.1⟩

end Progress

end OxideKv
