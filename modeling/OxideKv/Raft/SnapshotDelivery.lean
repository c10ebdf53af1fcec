import OxideKv.Raft.SnapshotSuffix
import OxideKv.Raft.Stores
import OxideKv.Raft.Applying

/-!
# Snapshots and entries in any order

A follower of a committed log `C` receives snapshots of prefixes of `C` and
`AppendEntries` with sections of `C`, duplicated, delayed and reordered.  What
it shows should be the effect of the first `last_applied` entries of `C`.

`handle_install_snapshot` breaks this in three ways.  It replaces the data also
when the snapshot is older than what was applied, while both indices only move
forward.  It drops the transactions in flight, so a later commit of one of them
writes nothing.  And it cuts the covered entries off the front of the log,
while every other method takes the position in the log for the index: the
entries that stay are applied in place of others.  `Delivers` is the condition
on the follower and the message under which none of the three shows, and
`deliveries_keep_effect` is about every run of such deliveries.
-/

namespace OxideKv

open LastWrite Run StateMachine RaftNode

/-! ## Transactions that were dropped -/

/-- The two sets of transactions differ only in transactions that `rest` does
not commit. -/
def AgreeOnCommitted (staged staged' : Staged) (rest : List Command) : Prop :=
  ∀ txId, staged txId = staged' txId ∨ Command.decideTx txId .commit ∉ rest

theorem AgreeOnCommitted.step {staged staged' : Staged} {c : Command} {rest : List Command}
    (h : AgreeOnCommitted staged staged' (c :: rest)) :
    c.writes staged = c.writes staged' ∧
      AgreeOnCommitted (c.stagedAfter staged) (c.stagedAfter staged') rest := by
  have hrest : AgreeOnCommitted staged staged' rest := fun txId =>
    (h txId).imp_right fun hnot hmem => hnot (List.mem_cons_of_mem c hmem)
  have hupdate : ∀ (id : String) (v : Option (List TxOp)),
      AgreeOnCommitted (Function.update staged id v) (Function.update staged' id v) rest := by
    intro id v txId
    rw [Function.update_apply, Function.update_apply]
    split_ifs
    · exact Or.inl rfl
    · exact hrest txId
  cases c with
  | beginTx id ops => exact ⟨rfl, hupdate id (some ops)⟩
  | decideTx id decision =>
    refine ⟨?_, hupdate id none⟩
    cases decision with
    | commit =>
      rcases h id with heq | hnot
      · rw [Command.writes, Command.writes, heq]
      · exact absurd List.mem_cons_self hnot
    | abort => rfl
  | _ => exact ⟨rfl, hrest⟩

/-- Along a list of commands the writes are the same. -/
theorem AgreeOnCommitted.run {rest : List Command} (cs : List Command) :
    ∀ {staged staged' : Staged}, AgreeOnCommitted staged staged' (cs ++ rest) →
      logWrites staged cs = logWrites staged' cs ∧
        AgreeOnCommitted (logStaged staged cs) (logStaged staged' cs) rest := by
  induction cs with
  | nil => exact fun h => ⟨rfl, h⟩
  | cons c cs ih =>
    intro staged staged' h
    obtain ⟨hwrites, hnext⟩ :=
      AgreeOnCommitted.step (show AgreeOnCommitted _ _ (c :: (cs ++ rest)) from h)
    obtain ⟨hlog, hlast⟩ := ih hnext
    exact ⟨by rw [logWrites, logWrites, hwrites, hlog], hlast⟩

/-! ## The follower -/

/-- The commands of a log. -/
def commandsOf (l : List LogEntry) : List Command := l.map LogEntry.command

@[simp] theorem commandsOf_append (l l' : List LogEntry) :
    commandsOf (l ++ l') = commandsOf l ++ commandsOf l' := List.map_append

/-- The applied state of the node is the effect of the first `last_applied`
entries of `C`. -/
structure AppliedPrefix (C : List LogEntry) (n : RaftNode) : Prop where
  layout : Layout n.stateMachine
  bound : n.lastApplied ≤ C.length
  contents : ∀ key, n.stateMachine.contents key = logEffect (C.take n.lastApplied) key
  staged : n.stateMachine.staged = logStaged Staged.none (commandsOf (C.take n.lastApplied))

/-- The same, but for transactions that `C` does not commit any more. -/
structure ShowsPrefix (C : List LogEntry) (n : RaftNode) : Prop where
  layout : Layout n.stateMachine
  bound : n.lastApplied ≤ C.length
  contents : ∀ key, n.stateMachine.contents key = logEffect (C.take n.lastApplied) key
  staged : AgreeOnCommitted n.stateMachine.staged
    (logStaged Staged.none (commandsOf (C.take n.lastApplied))) (commandsOf (C.drop n.lastApplied))

theorem AppliedPrefix.shows {C : List LogEntry} {n : RaftNode} (h : AppliedPrefix C n) :
    ShowsPrefix C n :=
  ⟨h.layout, h.bound, h.contents, fun _ => Or.inl (congrFun h.staged _)⟩

/-- The message is a snapshot of a prefix of `C`, or brings a section of `C`. -/
def OfLog (C : List LogEntry) : NodeEvent → Prop
  | .installSnapshot _ args =>
      args.lastIncludedIndex ≤ C.length ∧
        ∀ key, args.snapshot.data[key]? = logEffect (C.take args.lastIncludedIndex) key
  | .appendEntries _ args =>
      args.entries <+: C.drop args.prevLogIndex ∧ args.leaderCommit ≤ C.length
  | _ => False

/-- The message replaces no entry of the log up to the position `i`. -/
def LeavesUpTo (args : AppendEntriesArgs) (n : RaftNode) (i : Nat) : Prop :=
  ∀ j own new, j ≤ i → n.log[j]? = some own → new ∈ args.entries → new.index = j + 1 →
    own.term = new.term

/-- The condition on the follower and the message.  A snapshot is not older
than what was applied, and no transaction in flight at its end is committed by
a later entry of `C`.  Where `AppendEntries` moves the commit index up, the
entries of the log that it leaves and commits are those of `C`. -/
def Delivers (C : List LogEntry) (n : RaftNode) : NodeEvent → Prop
  | .installSnapshot _ args =>
      n.Accepts args.term → n.lastApplied ≤ args.lastIncludedIndex ∧
        ∀ txId, logStaged Staged.none (commandsOf (C.take args.lastIncludedIndex)) txId = none ∨
          Command.decideTx txId .commit ∉ commandsOf (C.drop args.lastIncludedIndex)
  | .appendEntries _ args =>
      n.Accepts args.term → prevLogMatches args n = true → n.commitIndex < args.leaderCommit →
        ∀ i e, n.lastApplied ≤ i → i < args.leaderCommit → n.log[i]? = some e →
          LeavesUpTo args n i → C[i]? = some e
  | _ => True

section Deliveries

variable {C : List LogEntry} {n n' : RaftNode}

/-- More entries of `C` are applied. -/
theorem ShowsPrefix.applied (h : ShowsPrefix C n) (hle : n.lastApplied ≤ n'.lastApplied)
    (hbound : n'.lastApplied ≤ C.length)
    (happ : Applied (commandsOf (between n.lastApplied n'.lastApplied C)) n n') :
    ShowsPrefix C n' := by
  have hsplit : C.take n'.lastApplied =
      C.take n.lastApplied ++ between n.lastApplied n'.lastApplied C := by
    have := between_append C (Nat.zero_le n.lastApplied) hle
    simpa only [between, List.drop_zero] using this
  have hrest : C.drop n.lastApplied =
      between n.lastApplied n'.lastApplied C ++ C.drop n'.lastApplied := by
    conv_lhs => rw [← List.take_append_drop n'.lastApplied C]
    rw [List.drop_append_of_le_length (by rw [List.length_take]; omega)]
    rfl
  have hstaged := h.staged
  rw [hrest, commandsOf_append] at hstaged
  obtain ⟨hwrites, hlast⟩ := AgreeOnCommitted.run _ hstaged
  refine ⟨happ.writes.layout, hbound, fun key => ?_, ?_⟩
  · rw [happ.writes.apply key, h.contents key, hwrites, hsplit, logEffect, logEffect,
      ← lastWrite_append, ← commandsOf, ← commandsOf, commandsOf_append, logWrites_append]
  · rw [happ.staged, hsplit, commandsOf_append, logStaged_append]
    exact hlast

/-- The log after `AppendEntries` agrees with `C` on what it commits. -/
theorem merged_of_log (hnum : Numbered C) {args : AppendEntriesArgs}
    (hentries : args.entries <+: C.drop args.prevLogIndex)
    (hprev : args.prevLogIndex ≤ n.log.length)
    (hown : ∀ i e, n.lastApplied ≤ i → i < args.leaderCommit → n.log[i]? = some e →
      LeavesUpTo args n i → C[i]? = some e) {i : Nat} {e : LogEntry} (hi : n.lastApplied ≤ i)
    (hcommit : i < args.leaderCommit) (he : (args.entries.foldl mergeLog n.log)[i]? = some e) :
    C[i]? = some e := by
  have hget : ∀ j new, args.entries[j]? = some new → C[args.prevLogIndex + j]? = some new := by
    intro j new hnew
    obtain ⟨rest, hrest⟩ := hentries
    have hlt := (List.getElem?_eq_some_iff.mp hnew).1
    rw [← List.getElem?_drop, ← hrest, List.getElem?_append_left hlt, hnew]
  have hafter : NumberedAfter args.prevLogIndex args.entries := by
    intro j new hnew
    rw [hnum _ new (hget j new hnew)]
  obtain ⟨k, hk⟩ := foldl_mergeLog_cut args.entries hafter hprev
  -- below the cut the log agrees in term with the message
  have hleaves : ∀ i, i < args.prevLogIndex + k ∨ k = args.entries.length →
      LeavesUpTo args n i := by
    intro i hi j own new hj hown hnew hindex
    obtain ⟨m, hm⟩ := List.mem_iff_getElem?.mp hnew
    have hposition : j = args.prevLogIndex + m := by
      have := hafter m new hm
      omega
    have hlt := (List.getElem?_eq_some_iff.mp hm).1
    have hterm := hk.agree m (by omega)
    rw [← hposition, hown, hm] at hterm
    exact Option.some.inj hterm
  rcases hk.cut with ⟨hlen, hfold, -⟩ | ⟨-, hfold, -⟩
  · rw [hfold] at he
    exact hown i e hi hcommit he (hleaves i (Or.inr hlen))
  · rw [hfold] at he
    have htake : (n.log.take (args.prevLogIndex + k)).length = args.prevLogIndex + k := by
      rw [List.length_take]
      have := hk.le_length
      omega
    rcases Nat.lt_or_ge i (args.prevLogIndex + k) with hlt | hge
    · rw [List.getElem?_append_left (by omega), List.getElem?_take_of_lt hlt] at he
      exact hown i e hi hcommit he (hleaves i (Or.inl hlt))
    · rw [List.getElem?_append_right (by omega), htake, List.getElem?_drop] at he
      have := hget _ e he
      rwa [show args.prevLogIndex + (k + (i - (args.prevLogIndex + k))) = i by omega] at this

/-- `handle_append_entries` applies nothing, or applies the merged log up to
the commit index of the leader. -/
theorem handleAppendEntries_applies (clock : Clock) (args : AppendEntriesArgs) (n : RaftNode) :
    (handleAppendEntries clock args n).2.lastApplied = n.lastApplied ∨
      n.Accepts args.term ∧ prevLogMatches args n = true ∧ n.commitIndex < args.leaderCommit ∧
        (handleAppendEntries clock args n).2.log = args.entries.foldl mergeLog n.log ∧
        (handleAppendEntries clock args n).2.lastApplied =
          max n.lastApplied
            (min args.leaderCommit (args.entries.foldl mergeLog n.log).length) := by
  rcases handleAppendEntries_cases clock args n with
    ⟨-, heq⟩ | ⟨hacc, ⟨-, heq⟩ | ⟨hprev, heq⟩⟩ <;> rw [heq]
  · exact Or.inl rfl
  · obtain ⟨storage, -, -, -, hfollow⟩ := followLeader_eq clock hacc.1
    rw [hfollow]
    exact Or.inl rfl
  · obtain ⟨storage, -, -, -, hfollow⟩ := followLeader_eq clock hacc.1
    obtain ⟨storage', -, -, hmerge⟩ :=
      foldl_mergeEntry_eq args.entries (followLeader clock args.term n)
    rw [hfollow] at hmerge
    rw [hfollow, hmerge]
    unfold followCommit
    dsimp only
    by_cases hcommit : n.commitIndex < args.leaderCommit
    · rw [if_pos hcommit]
      refine Or.inr ⟨hacc, hprev, hcommit, ?_, ?_⟩
      · rw [(applyLogs_extends clock _).log_eq (by simp)]
      · rw [applyLogs_lastApplied clock (by exact Nat.min_le_right _ _)]
    · rw [if_neg hcommit]
      exact Or.inl rfl

/-- `AppendEntries` of `C`. -/
theorem ShowsPrefix.appendEntries (h : ShowsPrefix C n) (hnum : Numbered C) (clock : Clock)
    {args : AppendEntriesArgs} (hof : OfLog C (.appendEntries clock args))
    (hdel : Delivers C n (.appendEntries clock args)) :
    ShowsPrefix C (handleAppendEntries clock args n).2 ∧
      n.lastApplied ≤ (handleAppendEntries clock args n).2.lastApplied := by
  obtain ⟨hentries, hcommit⟩ := hof
  have hconsumes := handleAppendEntries_consumes clock args n
  have hstore := hconsumes.store h.layout
  refine ⟨?_, hconsumes.applied⟩
  rcases handleAppendEntries_applies clock args n with
    hsame | ⟨hacc, hprev, hlt, hlog, hlast⟩
  · refine h.applied hconsumes.applied (hsame.trans_le h.bound) ?_
    rw [hsame, between_self] at hstore ⊢
    exact hstore
  · have hbound := h.bound
    refine h.applied hconsumes.applied (by omega) ?_
    have hsection : between n.lastApplied (handleAppendEntries clock args n).2.lastApplied C =
        between n.lastApplied (handleAppendEntries clock args n).2.lastApplied
          (handleAppendEntries clock args n).2.log := by
      unfold between
      apply List.ext_getElem?
      intro j
      rw [List.getElem?_drop, List.getElem?_drop, List.getElem?_take, List.getElem?_take]
      split_ifs with hj
      · rw [hlog]
        have hin : n.lastApplied + j < (args.entries.foldl mergeLog n.log).length := by omega
        have hget := List.getElem?_eq_getElem hin
        rw [hget]
        exact merged_of_log hnum hentries (prevLogMatches_le hprev) (hdel hacc hprev hlt)
          (by omega) (by omega) hget
      · rfl
    rw [hsection]
    exact hstore

/-- `InstallSnapshot` of a prefix of `C`. -/
theorem ShowsPrefix.installSnapshot (h : ShowsPrefix C n) (clock : Clock)
    {args : InstallSnapshotArgs} (hof : OfLog C (.installSnapshot clock args))
    (hdel : Delivers C n (.installSnapshot clock args)) :
    ∃ r, handleInstallSnapshot clock args n = some r ∧ ShowsPrefix C r.2 ∧
      n.lastApplied ≤ r.2.lastApplied := by
  obtain ⟨hlen, hdata⟩ := hof
  by_cases hacc : n.Accepts args.term
  · obtain ⟨hle, hdropped⟩ := hdel hacc
    obtain ⟨sm, hclear, -⟩ := clearForSnapshot_ok h.layout
    obtain ⟨storage, -, -, -, hadopt⟩ := adoptNewer_eq hacc.1
    obtain ⟨r, hr, hlast⟩ : ∃ r, handleInstallSnapshot clock args n = some r ∧
        r.2.lastApplied = max n.lastApplied args.lastIncludedIndex := by
      rw [handleInstallSnapshot, if_neg (Nat.not_lt.mpr hacc.1), if_neg hacc.2, hadopt]
      dsimp only
      rw [hclear]
      exact ⟨_, rfl, rfl⟩
    obtain ⟨hlayout, hcontents, hstaged, -⟩ := installs_ok h.layout
      (Or.inr ⟨clock, args, r.1, rfl, hacc, hr⟩)
    have hlast' : r.2.lastApplied = args.lastIncludedIndex := by omega
    refine ⟨r, hr, ⟨hlayout, by omega, fun key => ?_, fun txId => ?_⟩, by omega⟩
    · rw [hcontents key, hlast', hdata key]
    · rw [hstaged, hlast']
      exact (hdropped txId).imp_left fun hnone => hnone.symm
  · refine ⟨({ term := n.currentTerm }, n), ?_, h, Nat.le_refl _⟩
    unfold handleInstallSnapshot
    split_ifs with hlt hsame
    · rfl
    · rfl
    · exact absurd ⟨Nat.not_lt.mp hlt, hsame⟩ hacc

/-- One delivery. -/
theorem ShowsPrefix.step (h : ShowsPrefix C n) (hnum : Numbered C) {e : NodeEvent}
    (hof : OfLog C e) (hdel : Delivers C n e) :
    ∃ n', n.step e = some n' ∧ ShowsPrefix C n' ∧ n.lastApplied ≤ n'.lastApplied := by
  cases e with
  | installSnapshot clock args =>
    obtain ⟨r, hr, hshows, hle⟩ := h.installSnapshot clock hof hdel
    exact ⟨r.2, by rw [RaftNode.step, hr]; rfl, hshows, hle⟩
  | appendEntries clock args =>
    obtain ⟨hshows, hle⟩ := h.appendEntries hnum clock hof hdel
    exact ⟨_, rfl, hshows, hle⟩
  | _ => exact hof.elim

end Deliveries

/-- The handler does not take `last_applied` back. -/
def KeepsApplied (n : RaftNode) (e : NodeEvent) : Prop :=
  ∀ n', n.step e = some n' → n.lastApplied ≤ n'.lastApplied

/-- No run of deliveries fails, and each of them keeps what is applied. -/
theorem ShowsPrefix.run {C : List LogEntry} (hnum : Numbered C) {es : List NodeEvent} :
    ∀ {n : RaftNode}, ShowsPrefix C n → (∀ e ∈ es, OfLog C e) →
      Along RaftNode.step (Delivers C) n es →
      ∃ n', Run.run RaftNode.step n es = some n' ∧ ShowsPrefix C n' ∧
        Along RaftNode.step KeepsApplied n es ∧ n.lastApplied ≤ n'.lastApplied := by
  induction es with
  | nil => exact fun h _ _ => ⟨_, rfl, h, trivial, Nat.le_refl _⟩
  | cons e es ih =>
    rintro n h hof ⟨hdel, hrest⟩
    obtain ⟨n₁, hstep, h₁, hle₁⟩ := h.step hnum (hof e List.mem_cons_self) hdel
    obtain ⟨n₂, hrun, h₂, hkeeps, hle₂⟩ :=
      ih h₁ (fun e' he' => hof e' (List.mem_cons_of_mem e he')) (hrest n₁ hstep)
    have hsame : ∀ {t : RaftNode}, n.step e = some t → n₁ = t := fun ht =>
      Option.some.inj (hstep.symm.trans ht)
    refine ⟨n₂, ?_, h₂, ⟨fun t ht => hsame ht ▸ hle₁, fun t ht => hsame ht ▸ hkeeps⟩,
      hle₁.trans hle₂⟩
    rw [Run.run, hstep]
    exact hrun

/-- In every run of deliveries of `C` that all meet `Delivers`, no handler
panics, the data of the follower are the effect of the first `last_applied`
entries of `C`, and no handler has taken `last_applied` back. -/
theorem deliveries_keep_effect {C : List LogEntry} (hnum : Numbered C) {es : List NodeEvent} :
    ∀ {n : RaftNode}, AppliedPrefix C n → (∀ e ∈ es, OfLog C e) →
      Along RaftNode.step (Delivers C) n es →
      ∃ n' data, run RaftNode.step n es = some n' ∧ Along RaftNode.step KeepsApplied n es ∧
        n.lastApplied ≤ n'.lastApplied ∧ n'.stateMachine.snapshotData = .ok data ∧
        ∀ key : String, data[key]? = logEffect (C.take n'.lastApplied) key := by
  intro n h hof halong
  obtain ⟨n', hrun, hshows, hkeeps, hle⟩ := h.shows.run hnum hof halong
  obtain ⟨data, hdata, hget⟩ := snapshotData_ok hshows.layout
  exact ⟨n', data, hrun, hkeeps, hle, hdata, fun key => (hget key).trans (hshows.contents key)⟩

/-- Three writes to one key. -/
def threeWrites : List LogEntry :=
  [⟨1, 1, .set "k" "1"⟩, ⟨1, 2, .set "k" "2"⟩, ⟨1, 3, .set "k" "3"⟩]

theorem threeWrites_numbered : Numbered threeWrites := by decide

/-- `AppendEntries` with the first entries of `threeWrites`, all committed. -/
def firstWrites (count : Nat) : NodeEvent :=
  .appendEntries someClock
    { term := 1, leaderId := "a", prevLogIndex := 0, prevLogTerm := 0,
      entries := threeWrites.take count, leaderCommit := count }

/-- The snapshot after the first writes. -/
def snapshotOf (count : Nat) : NodeEvent :=
  .installSnapshot someClock
    { term := 1, leaderId := "a", lastIncludedIndex := count, lastIncludedTerm := 1,
      snapshot := ⟨count, 1, Std.TreeMap.ofList [("k", toString count)]⟩ }

theorem firstWrites_ofLog {count : Nat} (h : count ≤ 3) : OfLog threeWrites (firstWrites count) :=
  ⟨List.take_prefix count threeWrites, h⟩

theorem snapshotOf_ofLog {count : Nat} (h : count = 1 ∨ count = 2) :
    OfLog threeWrites (snapshotOf count) := by
  refine ⟨by show count ≤ 3; omega, fun key => ?_⟩
  show (Std.TreeMap.ofList [("k", toString count)])[key]? = _
  rcases h with rfl | rfl <;> by_cases hk : "k" = key
  · subst hk
    decide
  · simp [Std.TreeMap.ofList_cons, hk, logEffect, threeWrites, logWrites, Command.writes, lastWrite,
      record_cons]
  · subst hk
    decide
  · simp [Std.TreeMap.ofList_cons, hk, logEffect, threeWrites, logWrites, Command.writes, lastWrite,
      record_cons]

theorem freshNode_appliedPrefix (C : List LogEntry) (raftAddr : String) (peers : List String) :
    AppliedPrefix C (freshNode raftAddr peers) := by
  obtain ⟨hlayout, -, htrace, hpend⟩ := freshStore_ok
  have hstore : (freshNode raftAddr peers).stateMachine = freshStore := rfl
  refine ⟨hlayout, Nat.zero_le _, fun key => ?_, staged_of_empty hpend⟩
  rw [hstore, StateMachine.contents, htrace]
  rfl

/-- A follower applies one entry, takes the snapshot of two, and is sent all
three. -/
theorem deliveries_keep_effect_newer_snapshot :
    ∃ n' data, run RaftNode.step (freshNode "b" ["a"])
        [firstWrites 1, snapshotOf 2, firstWrites 3] = some n' ∧ n'.lastApplied = 3 ∧
      n'.stateMachine.snapshotData = .ok data ∧
      ∀ key : String, data[key]? = logEffect (threeWrites.take n'.lastApplied) key := by
  have hof : ∀ e ∈ [firstWrites 1, snapshotOf 2, firstWrites 3], OfLog threeWrites e := by
    intro e he
    simp only [List.mem_cons, List.not_mem_nil, or_false] at he
    rcases he with rfl | rfl | rfl
    · exact firstWrites_ofLog (by omega)
    · exact snapshotOf_ofLog (Or.inr rfl)
    · exact firstWrites_ofLog (by omega)
  have halong : Along RaftNode.step (Delivers threeWrites) (freshNode "b" ["a"])
      [firstWrites 1, snapshotOf 2, firstWrites 3] := by
    have hfresh : (freshNode "b" ["a"]).log = [] := rfl
    refine ⟨fun _ _ _ i e _ _ he => absurd he (by rw [hfresh]; simp), fun s hs => ?_⟩
    obtain rfl := Option.some.inj hs
    refine ⟨fun _ => ⟨by decide +kernel, fun _ => Or.inl rfl⟩, fun s hs => ?_⟩
    have hlog : s.log = [] := by
      obtain rfl := Option.some.inj hs
      decide +kernel
    refine ⟨fun _ _ _ i e _ _ he => ?_, fun _ _ => trivial⟩
    rw [hlog] at he
    cases he
  obtain ⟨n', data, hrun, -, -, hdata, hget⟩ := deliveries_keep_effect threeWrites_numbered
    (freshNode_appliedPrefix threeWrites "b" ["a"]) hof halong
  refine ⟨n', data, hrun, ?_, hdata, hget⟩
  obtain rfl := Option.some.inj hrun
  decide +kernel

/-- A follower has applied two entries when the snapshot of the first arrives
late: its data go back and `last_applied` does not. -/
theorem older_snapshot_regresses :
    Numbered threeWrites ∧ AppliedPrefix threeWrites (freshNode "b" ["a"]) ∧
      (∀ e ∈ [firstWrites 2, snapshotOf 1], OfLog threeWrites e) ∧
      ∃ n', run RaftNode.step (freshNode "b" ["a"]) [firstWrites 2, snapshotOf 1] = some n' ∧
        n'.lastApplied = 2 ∧ n'.stateMachine.contents "k" = some "1" ∧
        logEffect (threeWrites.take n'.lastApplied) "k" = some "2" := by
  refine ⟨threeWrites_numbered, freshNode_appliedPrefix threeWrites "b" ["a"], ?_,
    exists_run_of_any (by decide +kernel)⟩
  intro e he
  simp only [List.mem_cons, List.not_mem_nil, or_false] at he
  rcases he with rfl | rfl
  · exact firstWrites_ofLog (by omega)
  · exact snapshotOf_ofLog (Or.inl rfl)

end OxideKv
