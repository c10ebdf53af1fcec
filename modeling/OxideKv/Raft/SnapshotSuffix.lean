import OxideKv.Raft.Effect

/-!
# A snapshot and the rest of the log

A snapshot holds the key-value data and nothing else.  The transactions in
flight are dropped by `clear_for_snapshot`, and the configuration is not part
of the snapshot at all.

So a node that installs the snapshot of the first `k` commands and goes on
with the rest differs from one that applies the whole log in three ways: it
may be left with another configuration, a transaction that was in flight at
`k` and is not mentioned again is missing, and the commit of such a transaction
writes nothing.  `SplitSafe` says that none of the three shows, and
`snapshot_suffix_iff` that this is exact.
-/

namespace OxideKv

open Fallible LastWrite Run StateMachine

/-! ## The writes of the rest, marked -/

namespace Command

/-- The command begins or decides the transaction. -/
def touches (txId : String) : Command → Bool
  | .beginTx id _ => id == txId
  | .decideTx id _ => id == txId
  | _ => false

/-- The transactions in flight at the split that a command leaves
untouched. -/
def untouched (old : Staged) : Command → Staged
  | .beginTx txId _ => Function.update old txId none
  | .decideTx txId _ => Function.update old txId none
  | _ => old

/-- A write with a mark. -/
def mark (lost : Bool) (w : String × Option String) : String × (Bool × Option String) :=
  (w.1, (lost, w.2))

/-- The writes of a command.  Those of a transaction in flight at the split
are marked `true`. -/
def markedWrites (old new : Staged) : Command → List (String × (Bool × Option String))
  | .decideTx txId decision =>
      (decisionWrites (old txId) decision).map (mark true) ++
        (decisionWrites (new txId) decision).map (mark false)
  | c => (c.writes new).map (mark false)

end Command

/-- The writes of the commands after the split, marked.  `old` are the
transactions in flight at the split and `new` those begun after it. -/
def markedLogWrites : Staged → Staged → List Command → List (String × (Bool × Option String))
  | _, _, [] => []
  | old, new, c :: cs =>
      c.markedWrites old new ++ markedLogWrites (c.untouched old) (c.stagedAfter new) cs

/-- The writes without their marks. -/
def unmark (ws : List (String × (Bool × Option String))) : List (String × Option String) :=
  ws.map fun w => (w.1, w.2.2)

/-- The writes that a node after a snapshot makes. -/
def keptWrites (ws : List (String × (Bool × Option String))) : List (String × Option String) :=
  unmark (ws.filter fun w => !w.2.1)

/-- The three conditions on a log and a split.  `before` are the commands the
snapshot covers, `after` the others, `start` the configuration of an empty
node and `config` that of the node which installs the snapshot. -/
structure SplitSafe (before after : List Command) (start config : Configuration) : Prop where
  /-- The configuration is the same, or the rest of the log sets it. -/
  config : config = logConfig start before ∨ ∃ c, Command.installConfiguration c ∈ after
  /-- Every transaction in flight at the split is mentioned again. -/
  pending : ∀ txId, logStaged Staged.none before txId ≠ none →
    ∃ c ∈ after, c.touches txId = true
  /-- Where the last write to a key is one of a transaction in flight at the
  split, it writes what the key holds without such writes. -/
  writes : ∀ key value,
    record (markedLogWrites (logStaged Staged.none before) Staged.none after) key =
        some (true, value) →
      value = lastWrite (logWrites Staged.none before ++
        keptWrites (markedLogWrites (logStaged Staged.none before) Staged.none after)) key

/-! ## The two sides -/

section Marked

variable {old new : Staged}

/-- No id is on both sides. -/
def Apart (old new : Staged) : Prop := ∀ txId, old txId = none ∨ new txId = none

/-- Both sides together. -/
def both (old new : Staged) : Staged := fun txId => (new txId).or (old txId)

theorem Apart.step (h : Apart old new) (c : Command) :
    Apart (c.untouched old) (c.stagedAfter new) := by
  intro txId
  cases c with
  | beginTx id ops =>
    rw [Command.untouched, Command.stagedAfter, Function.update_apply, Function.update_apply]
    split_ifs
    · exact Or.inl rfl
    · exact h txId
  | decideTx id decision =>
    rw [Command.untouched, Command.stagedAfter, Function.update_apply, Function.update_apply]
    split_ifs
    · exact Or.inl rfl
    · exact h txId
  | _ => exact h txId

theorem both_step (c : Command) :
    c.stagedAfter (both old new) = both (c.untouched old) (c.stagedAfter new) := by
  funext txId
  cases c with
  | beginTx id ops =>
    simp only [both, Command.untouched, Command.stagedAfter, Function.update_apply]
    split_ifs <;> rfl
  | decideTx id decision =>
    simp only [both, Command.untouched, Command.stagedAfter, Function.update_apply]
    split_ifs <;> rfl
  | _ => rfl

theorem unmark_append (xs ys : List (String × (Bool × Option String))) :
    unmark (xs ++ ys) = unmark xs ++ unmark ys := List.map_append

theorem unmark_mark (lost : Bool) (ws : List (String × Option String)) :
    unmark (ws.map (Command.mark lost)) = ws := by
  rw [unmark, List.map_map]
  exact List.map_id ws

theorem keptWrites_append (xs ys : List (String × (Bool × Option String))) :
    keptWrites (xs ++ ys) = keptWrites xs ++ keptWrites ys := by
  rw [keptWrites, List.filter_append, unmark_append]
  rfl

theorem keptWrites_mark_false (ws : List (String × Option String)) :
    keptWrites (ws.map (Command.mark false)) = ws := by
  rw [keptWrites, List.filter_eq_self.mpr, unmark_mark]
  intro w hw
  obtain ⟨x, _, rfl⟩ := List.mem_map.mp hw
  rfl

theorem keptWrites_mark_true (ws : List (String × Option String)) :
    keptWrites (ws.map (Command.mark true)) = [] := by
  rw [keptWrites, List.filter_eq_nil_iff.mpr]
  · rfl
  · intro w hw
    obtain ⟨x, _, rfl⟩ := List.mem_map.mp hw
    simp [Command.mark]

theorem decisionWrites_both (h : Apart old new) (txId : String) (decision : TxDecision) :
    decisionWrites (both old new txId) decision =
      decisionWrites (old txId) decision ++ decisionWrites (new txId) decision := by
  cases decision with
  | abort => rfl
  | commit =>
    rcases h txId with hn | hn <;> simp [both, decisionWrites, hn]

/-- The marked writes are the writes of the whole log. -/
theorem unmark_markedLogWrites (cs : List Command) :
    ∀ {old new : Staged}, Apart old new →
      unmark (markedLogWrites old new cs) = logWrites (both old new) cs := by
  induction cs with
  | nil => exact fun _ => rfl
  | cons c cs ih =>
    intro old new h
    rw [markedLogWrites, unmark_append, ih (h.step c), logWrites, both_step]
    congr 1
    cases c with
    | decideTx txId decision =>
      rw [Command.markedWrites, unmark_append, unmark_mark, unmark_mark]
      exact (decisionWrites_both h txId decision).symm
    | _ => exact unmark_mark false _

/-- The kept writes are those of the log after the snapshot. -/
theorem keptWrites_markedLogWrites (cs : List Command) :
    ∀ old new : Staged, keptWrites (markedLogWrites old new cs) = logWrites new cs := by
  induction cs with
  | nil => exact fun _ _ => rfl
  | cons c cs ih =>
    intro old new
    rw [markedLogWrites, keptWrites_append, ih, logWrites]
    congr 1
    cases c with
    | decideTx txId decision =>
      rw [Command.markedWrites, keptWrites_append, keptWrites_mark_true, keptWrites_mark_false]
      rfl
    | _ => exact keptWrites_mark_false _

/-- Over the same map, the writes and the kept writes leave the same value
under a key unless the last write is marked and matters. -/
theorem lastWrite_unmark_iff (xs : List (String × Option String))
    (ws : List (String × (Bool × Option String))) (key : String) :
    lastWrite (xs ++ keptWrites ws) key = lastWrite (xs ++ unmark ws) key ↔
      ∀ value, record ws key = some (true, value) →
        value = lastWrite (xs ++ keptWrites ws) key := by
  have hall : lastWrite (xs ++ unmark ws) key =
      ((record ws key).map Prod.snd).getD (lastWrite xs key) := by
    rw [lastWrite_append, unmark, record_map]
  rw [hall]
  cases hr : record ws key with
  | none =>
    have hkept : record (keptWrites ws) key = none := by
      rw [keptWrites, unmark, record_map, record_filter_none hr]
      rfl
    rw [lastWrite_append, hkept]
    simp
  | some r =>
    obtain ⟨lost, value⟩ := r
    cases lost with
    | false =>
      have hkept : record (keptWrites ws) key = some value := by
        rw [keptWrites, unmark, record_map, record_filter hr rfl]
        rfl
      rw [lastWrite_append, hkept]
      simp
    | true =>
      constructor
      · intro heq v hv
        cases hv
        exact heq.symm
      · intro h
        exact (h value rfl).symm

theorem update_none_apply (txId id : String) :
    Function.update old id none txId = if (id == txId) = true then none else old txId := by
  rw [Function.update_apply]
  by_cases hid : txId = id
  · simp [hid]
  · have hne : id ≠ txId := fun hc => hid hc.symm
    simp [hid, hne]

theorem untouched_apply (c : Command) (txId : String) :
    c.untouched old txId = if c.touches txId then none else old txId := by
  cases c with
  | beginTx id ops => exact update_none_apply txId id
  | decideTx id decision => exact update_none_apply txId id
  | _ => rfl

theorem stagedAfter_of_not_touches {c : Command} {txId : String} (h : c.touches txId = false) :
    c.stagedAfter new txId = new txId := by
  cases c with
  | beginTx id ops =>
    have hne : txId ≠ id := fun hc => by simp [Command.touches, hc] at h
    exact Function.update_of_ne hne _ _
  | decideTx id decision =>
    have hne : txId ≠ id := fun hc => by simp [Command.touches, hc] at h
    exact Function.update_of_ne hne _ _
  | _ => rfl

theorem logStaged_of_not_touched {txId : String} (cs : List Command) :
    ∀ new : Staged, cs.any (Command.touches txId) = false → logStaged new cs txId = new txId := by
  induction cs with
  | nil => exact fun _ _ => rfl
  | cons c cs ih =>
    intro new h
    rw [List.any_cons, Bool.or_eq_false_iff] at h
    exact (ih _ h.2).trans (stagedAfter_of_not_touches h.1)

/-- The transactions of the whole log are those of the rest and the untouched
ones. -/
theorem logStaged_both (cs : List Command) (txId : String) :
    ∀ old new : Staged, logStaged (both old new) cs txId =
      (logStaged new cs txId).or (if cs.any (Command.touches txId) then none else old txId) := by
  induction cs with
  | nil => exact fun _ _ => rfl
  | cons c cs ih =>
    intro old new
    show logStaged (c.stagedAfter (both old new)) cs txId =
      (logStaged (c.stagedAfter new) cs txId).or _
    rw [both_step, ih, untouched_apply, List.any_cons]
    cases c.touches txId <;> cases cs.any (Command.touches txId) <;> rfl

/-- Both sides end with the same transactions exactly when every old one is
touched. -/
theorem logStaged_eq_both_iff (h : Apart old new) (cs : List Command) :
    logStaged new cs = logStaged (both old new) cs ↔
      ∀ txId, old txId ≠ none → ∃ c ∈ cs, c.touches txId = true := by
  simp only [← List.any_eq_true]
  constructor
  · intro heq txId hold
    by_contra htouch
    rw [Bool.not_eq_true] at htouch
    have hnew : new txId = none := (h txId).resolve_left hold
    have hsame := congrFun heq txId
    rw [logStaged_both, logStaged_of_not_touched cs new htouch, htouch, hnew] at hsame
    exact hold hsame.symm
  · intro hall
    funext txId
    rw [logStaged_both]
    cases htouch : cs.any (Command.touches txId) with
    | true => simp
    | false =>
      have hold : old txId = none := by
        by_contra hne
        rw [hall txId hne] at htouch
        cases htouch
      simp [hold]

end Marked

/-- Two configurations end alike exactly when they are alike or the log sets
the configuration. -/
theorem logConfig_eq_iff (cs : List Command) :
    ∀ config config' : Configuration, logConfig config cs = logConfig config' cs ↔
      config = config' ∨ ∃ c, Command.installConfiguration c ∈ cs := by
  induction cs with
  | nil => intro config config'; simp [logConfig]
  | cons c cs ih =>
    intro config config'
    show logConfig (c.configAfter config) cs = logConfig (c.configAfter config') cs ↔ _
    rw [ih]
    cases c with
    | installConfiguration config₁ =>
      refine iff_of_true (Or.inl rfl) (Or.inr ⟨config₁, List.mem_cons_self⟩)
    | _ => simp [Command.configAfter]

/-! ## The nodes -/

/-- The two stores flatten to the same map. -/
def SameContents (a b : StateMachine) : Prop :=
  ∃ d d', snapshotData a = .ok d ∧ snapshotData b = .ok d' ∧ ∀ key : String, d[key]? = d'[key]?

theorem sameContents_iff {a b : StateMachine} (ha : Layout a) (hb : Layout b) :
    SameContents a b ↔ ∀ key, a.contents key = b.contents key := by
  obtain ⟨d, hd, hda⟩ := snapshotData_ok ha
  obtain ⟨d', hd', hdb⟩ := snapshotData_ok hb
  constructor
  · rintro ⟨e, e', he, he', heq⟩ key
    obtain rfl : d = e := Except.ok.inj (hd.symm.trans he)
    obtain rfl : d' = e' := Except.ok.inj (hd'.symm.trans he')
    rw [← hda, ← hdb, heq]
  · exact fun heq => ⟨d, d', hd, hd', fun key => by rw [hda, hdb, heq]⟩

namespace RaftNode

/-- `r` is `m` after it installed the snapshot: at startup, or on an
`InstallSnapshot` that it accepts. -/
def Installs (snap : Snapshot) (m r : RaftNode) : Prop :=
  (m.storage.loadSnapshot = some snap ∧ restoreFromSnapshot m = some r) ∨
    ∃ clock args reply, args.snapshot = snap ∧ m.Accepts args.term ∧
      handleInstallSnapshot clock args m = some (reply, r)

/-- The loop of `handle_install_snapshot` writes the rows of the snapshot. -/
theorem loadSnapshotData_ok {sm : StateMachine} (h : Layout sm)
    (data : Std.TreeMap String String) :
    ∃ sm', loadSnapshotData data sm = (.ok (), sm') ∧
      Writes sm sm' (data.toList.map fun p => (p.1, some p.2)) ∧
      sm'.pendingTxs = sm.pendingTxs := by
  rw [loadSnapshotData]
  refine forM_writes (fun row hrow => ?_) data.toList h
  obtain ⟨sm', hset, hwrites⟩ := set_ok hrow row.1 row.2
  exact ⟨sm', ignoreErr_ok hset, hwrites⟩

/-- The node holds the data of the snapshot, no transaction, and the
configuration it had. -/
theorem installs_ok {snap : Snapshot} {m r : RaftNode} (h : Layout m.stateMachine)
    (hinst : Installs snap m r) :
    Layout r.stateMachine ∧ (∀ key, r.stateMachine.contents key = snap.data[key]?) ∧
      r.stateMachine.staged = Staged.none ∧ r.currentConfig = m.currentConfig := by
  rcases hinst with ⟨hload, hrestore⟩ | ⟨clock, args, reply, rfl, hacc, hhandle⟩
  · obtain ⟨sm, heq, hlayout, hcontents, hpend⟩ := installSnapshot_ok h snap.data
    rw [restoreFromSnapshot, hload] at hrestore
    dsimp only at hrestore
    rw [heq] at hrestore
    obtain rfl := Option.some.inj hrestore
    exact ⟨hlayout, hcontents, staged_of_empty hpend, rfl⟩
  · obtain ⟨storage, -, -, -, hadopt⟩ := adoptNewer_eq hacc.1
    obtain ⟨sm₁, hclear, hlayout, -, htrace, hpend⟩ := clearForSnapshot_ok h
    obtain ⟨sm₂, hloaded, hw, hpend₂⟩ := loadSnapshotData_ok hlayout args.snapshot.data
    rw [handleInstallSnapshot, if_neg (Nat.not_lt.mpr hacc.1), if_neg hacc.2, hadopt] at hhandle
    dsimp only at hhandle
    rw [hclear] at hhandle
    dsimp only at hhandle
    rw [hloaded] at hhandle
    obtain rfl := congrArg Prod.snd (Option.some.inj hhandle)
    refine ⟨hw.layout, fun key => ?_, staged_of_empty (hpend₂.trans hpend), rfl⟩
    rw [hw.contents, htrace, List.nil_append, lastWrite, record_toList args.snapshot.data some key]
    cases args.snapshot.data[key]? <;> rfl

/-- The snapshot that a leader takes holds the contents of its store. -/
theorem maybeSnapshot_data {thresholdBytes : Nat} {n n' : RaftNode} {snap : Snapshot}
    (h : maybeSnapshot thresholdBytes n = some (true, n'))
    (hsnap : n'.storage.snapshot = some snap) :
    n.stateMachine.snapshotData = .ok snap.data := by
  rcases maybeSnapshot_cases h with hr | ⟨_, data, storage, hdata, hr, ⟨_, hsaved⟩ | ⟨hf, _⟩⟩
  · cases hr
  · rw [show n' = { n with storage := storage } from hr] at hsnap
    obtain rfl := Option.some.inj (hsaved.symm.trans hsnap)
    exact hdata
  · cases hf

/-- `r` installs the snapshot that `mid` takes, where `mid` has the state of
an empty node after the first `k` commands.  Applying the others to `r` gives
the contents, the transactions and the configuration of the whole log exactly
when the split is safe. -/
theorem snapshot_suffix_iff {raftAddr : String} {peers : List String} {clock : Clock}
    {log : List Command} {k thresholdBytes : Nat} {mid mid' m r : RaftNode} {snap : Snapshot}
    (hmid : mid.stateMachine =
      (applyCommands clock (log.take k) (freshNode raftAddr peers)).stateMachine)
    (htake : maybeSnapshot thresholdBytes mid = some (true, mid'))
    (hsnap : mid'.storage.snapshot = some snap) (hm : Layout m.stateMachine)
    (hinst : Installs snap m r) :
    (SameContents (applyCommands clock (log.drop k) r).stateMachine
          (applyCommands clock log (freshNode raftAddr peers)).stateMachine ∧
        (applyCommands clock (log.drop k) r).stateMachine.staged =
          (applyCommands clock log (freshNode raftAddr peers)).stateMachine.staged ∧
        (applyCommands clock (log.drop k) r).currentConfig =
          (applyCommands clock log (freshNode raftAddr peers)).currentConfig) ↔
      SplitSafe (log.take k) (log.drop k) (freshNode raftAddr peers).currentConfig
        m.currentConfig := by
  have hfresh : Layout (freshNode raftAddr peers).stateMachine := freshStore_ok.1
  have hstaged₀ : (freshNode raftAddr peers).stateMachine.staged = Staged.none :=
    staged_of_empty rfl
  have htrace₀ : (freshNode raftAddr peers).stateMachine.trace = [] := rfl
  have hbefore := applyCommands_ok clock (log.take k) hfresh
  have hfull := applyCommands_ok clock log hfresh
  obtain ⟨hlayout, hcontents, hnone, hconfig⟩ := installs_ok hm hinst
  have hafter := applyCommands_ok clock (log.drop k) hlayout
  have hboth : both (logStaged Staged.none (log.take k)) Staged.none =
      logStaged Staged.none (log.take k) := rfl
  have hapart : Apart (logStaged Staged.none (log.take k)) Staged.none := fun _ => Or.inr rfl
  have hsplit : log = log.take k ++ log.drop k := (List.take_append_drop k log).symm
  -- the snapshot holds what the first `k` commands wrote
  have hdata : ∀ key, lastWrite r.stateMachine.trace key =
      lastWrite (logWrites Staged.none (log.take k)) key := by
    intro key
    obtain ⟨data, hflat, hkeys⟩ := snapshotData_ok hbefore.writes.layout
    rw [← hmid, maybeSnapshot_data htake hsnap] at hflat
    obtain rfl := Except.ok.inj hflat
    have hr : lastWrite r.stateMachine.trace key = snap.data[key]? := hcontents key
    rw [hr, hkeys, hbefore.writes.contents, htrace₀, hstaged₀, List.nil_append]
  have hcontents_iff :
      SameContents (applyCommands clock (log.drop k) r).stateMachine
          (applyCommands clock log (freshNode raftAddr peers)).stateMachine ↔
        ∀ key value,
          record (markedLogWrites (logStaged Staged.none (log.take k)) Staged.none
              (log.drop k)) key = some (true, value) →
            value = lastWrite (logWrites Staged.none (log.take k) ++
              keptWrites (markedLogWrites (logStaged Staged.none (log.take k)) Staged.none
                (log.drop k))) key := by
    rw [sameContents_iff hafter.writes.layout hfull.writes.layout]
    refine forall_congr' fun key => ?_
    rw [hafter.writes.contents, lastWrite_append_congr hdata, hnone, hfull.writes.contents,
      htrace₀, hstaged₀, List.nil_append]
    nth_rewrite 3 [hsplit]
    rw [logWrites_append, ← lastWrite_unmark_iff, unmark_markedLogWrites _ hapart, hboth,
      keptWrites_markedLogWrites]
  have hstaged_iff :
      (applyCommands clock (log.drop k) r).stateMachine.staged =
          (applyCommands clock log (freshNode raftAddr peers)).stateMachine.staged ↔
        ∀ txId, logStaged Staged.none (log.take k) txId ≠ none →
          ∃ c ∈ log.drop k, c.touches txId = true := by
    rw [hafter.staged, hnone, hfull.staged, hstaged₀, ← logStaged_eq_both_iff hapart, hboth,
      ← logStaged_append, ← hsplit]
  have hconfig_iff :
      (applyCommands clock (log.drop k) r).currentConfig =
          (applyCommands clock log (freshNode raftAddr peers)).currentConfig ↔
        m.currentConfig = logConfig (freshNode raftAddr peers).currentConfig (log.take k) ∨
          ∃ c, Command.installConfiguration c ∈ log.drop k := by
    rw [hafter.config, hconfig, hfull.config, ← logConfig_eq_iff, ← logConfig_append, ← hsplit]
  rw [hcontents_iff, hstaged_iff, hconfig_iff]
  exact ⟨fun ⟨hw, hp, hc⟩ => ⟨hc, hp, hw⟩, fun h => ⟨h.writes, h.pending, h.config⟩⟩

/-- A standalone node applies `command` and takes a snapshot. -/
def splitRun (command : Command) : List LifeEvent :=
  [.restart [] { now := 1, unixMs := fun _ => 1 }, .call (.propose command),
    .call (.syncAlone { now := 2, unixMs := fun _ => 2 })]

theorem snapshot_suffix_of_set :
    ∃ mid mid' snap r, run lifeStep (freshNode "a" []) (splitRun (.set "x" "1")) = some mid ∧
      maybeSnapshot 0 mid = some (true, mid') ∧ mid'.storage.snapshot = some snap ∧
      Installs snap (new "a" [] freshStore mid'.storage { now := 3, unixMs := fun _ => 3 }) r ∧
      SameContents
        (applyCommands { now := 2, unixMs := fun _ => 2 } [.set "y" "2"] r).stateMachine
        (applyCommands { now := 2, unixMs := fun _ => 2 } [.set "x" "1", .set "y" "2"]
          (freshNode "a" [])).stateMachine := by
  obtain ⟨mid, mid', snap, r, hrun, hmid, htake, hsnap, hinst⟩ : ∃ mid mid' snap r,
      run lifeStep (freshNode "a" []) (splitRun (.set "x" "1")) = some mid ∧
      mid.stateMachine =
        (applyCommands { now := 2, unixMs := fun _ => 2 } [.set "x" "1"]
          (freshNode "a" [])).stateMachine ∧
      maybeSnapshot 0 mid = some (true, mid') ∧ mid'.storage.snapshot = some snap ∧
      Installs snap (new "a" [] freshStore mid'.storage { now := 3, unixMs := fun _ => 3 }) r :=
    ⟨_, _, _, _, rfl, rfl, rfl, rfl, Or.inl ⟨rfl, rfl⟩⟩
  have hsafe : SplitSafe [.set "x" "1"] [.set "y" "2"] (freshNode "a" []).currentConfig
      (new "a" [] freshStore mid'.storage { now := 3, unixMs := fun _ => 3 }).currentConfig := by
    refine ⟨Or.inl rfl, fun txId hne => absurd rfl hne, fun key value hw => ?_⟩
    by_cases hkey : key = "y"
    · subst hkey
      cases hw
    · simp [markedLogWrites, Command.markedWrites, Command.writes, Command.mark,
        Ne.symm hkey] at hw
  have hsame := (@snapshot_suffix_iff "a" [] _ [.set "x" "1", .set "y" "2"] 1 _ _ _ _ _ _ hmid
    htake hsnap freshStore_ok.1 hinst).mpr hsafe
  exact ⟨mid, mid', snap, r, hrun, htake, hsnap, hinst, hsame.1⟩

/-- The snapshot is taken between `BeginTx` and the commit.  The node that
installs it has forgotten the transaction, and the commit writes nothing. -/
theorem snapshot_forgets_transaction :
    ∃ mid mid' snap r d d',
      run lifeStep (freshNode "a" []) (splitRun (.beginTx "t" [.put "x" "1"])) = some mid ∧
      mid.stateMachine =
        (applyCommands { now := 2, unixMs := fun _ => 2 } [.beginTx "t" [.put "x" "1"]]
          (freshNode "a" [])).stateMachine ∧
      maybeSnapshot 0 mid = some (true, mid') ∧ mid'.storage.snapshot = some snap ∧
      Installs snap (new "a" [] freshStore mid'.storage { now := 3, unixMs := fun _ => 3 }) r ∧
      (applyCommands { now := 2, unixMs := fun _ => 2 } [.decideTx "t" .commit]
        r).stateMachine.snapshotData = .ok d ∧ d["x"]? = none ∧
      (applyCommands { now := 2, unixMs := fun _ => 2 }
        [.beginTx "t" [.put "x" "1"], .decideTx "t" .commit]
        (freshNode "a" [])).stateMachine.snapshotData = .ok d' ∧ d'["x"]? = some "1" := by
  refine ⟨_, _, _, _, _, _, rfl, rfl, rfl, rfl, Or.inl ⟨rfl, rfl⟩, rfl, ?_, rfl, ?_⟩ <;> decide

end RaftNode

end OxideKv
