import OxideKv.Raft.Frame

/-!
# Merging the entries of a request

The loop of `handle_append_entries` looks at one entry after the other.  For
the entries that `sync_logs` sends, which follow one another from
`prev_log_index` on, the whole loop is one cut: the entries that agree with the
log in term stay, and from the first that does not, or from the end of the
log, the request takes over.  `foldl_mergeLog_cut` is that fact.

`Numbered` and `TermsSorted` are the two properties of a log that every cut
keeps.
-/

namespace OxideKv

/-- Some entry of the request meets an entry of another term at its position.
The entries before it have been merged. -/
def conflictsWith (log : List LogEntry) : List LogEntry → Bool
  | [] => false
  | entry :: rest =>
      match log[usizePred entry.index]? with
      | some own => own.term != entry.term || conflictsWith log rest
      | none => conflictsWith (log ++ [entry]) rest

/-- Every entry carries its position. -/
def Numbered (log : List LogEntry) : Prop :=
  ∀ i e, log[i]? = some e → e.index = i + 1

theorem numbered_iff {log : List LogEntry} :
    Numbered log ↔ ∀ i : Fin log.length, log[i].index = i + 1 := by
  constructor
  · intro h i
    exact h i log[i] (List.getElem?_eq_getElem i.isLt)
  · intro h i e hi
    obtain ⟨hlt, rfl⟩ := List.getElem?_eq_some_iff.mp hi
    exact h ⟨i, hlt⟩

instance (log : List LogEntry) : Decidable (Numbered log) := decidable_of_iff _ numbered_iff.symm

/-- The entries follow one another from position `prev` on. -/
def NumberedAfter (prev : Nat) (entries : List LogEntry) : Prop :=
  ∀ i e, entries[i]? = some e → e.index = prev + i + 1

/-- Terms do not go back along the log. -/
def TermsSorted (log : List LogEntry) : Prop :=
  (log.map LogEntry.term).Pairwise (· ≤ ·)

theorem NumberedAfter.tail {prev : Nat} {entry : LogEntry} {entries : List LogEntry}
    (h : NumberedAfter prev (entry :: entries)) : NumberedAfter (prev + 1) entries := by
  intro i e hi
  have := h (i + 1) e (by rwa [List.getElem?_cons_succ])
  omega

theorem Numbered.append {log entries : List LogEntry} (hlog : Numbered log)
    (hnum : NumberedAfter log.length entries) : Numbered (log ++ entries) := by
  intro i e hi
  rcases Nat.lt_or_ge i log.length with hlt | hge
  · rw [List.getElem?_append_left hlt] at hi
    exact hlog i e hi
  · rw [List.getElem?_append_right hge] at hi
    have := hnum _ e hi
    omega

theorem Numbered.take {log : List LogEntry} (h : Numbered log) (count : Nat) :
    Numbered (log.take count) := by
  intro i e hi
  rw [List.getElem?_take] at hi
  split_ifs at hi
  exact h i e hi

/-- New entries go on from the end of the log. -/
theorem RaftNode.Extends.numbered {n n' : RaftNode} (h : RaftNode.Extends n n')
    (hlog : Numbered n.log) : Numbered n'.log := by
  obtain ⟨entries, happ, hnum, -⟩ := h.appended
  rw [happ]
  exact hlog.append fun i e hi => (hnum i e hi).1

/-- Entries that are in the log already do not conflict. -/
theorem conflictsWith_of_agree {log : List LogEntry} (entries : List LogEntry) :
    ∀ {prev : Nat}, NumberedAfter prev entries →
      (∀ i e, entries[i]? = some e → (log[prev + i]?).map LogEntry.term = some e.term) →
      conflictsWith log entries = false := by
  induction entries with
  | nil => exact fun _ _ => rfl
  | cons entry entries ih =>
    intro prev hnum hagree
    obtain ⟨own, hown, hterm⟩ := Option.map_eq_some_iff.mp (hagree 0 entry rfl)
    have hidx : usizePred entry.index = prev := by
      have := hnum 0 entry rfl
      rw [this, Nat.add_zero, usizePred_succ]
    have hrest := ih (NumberedAfter.tail hnum) fun i e he => by
      rw [show prev + 1 + i = prev + (i + 1) by omega]
      exact hagree (i + 1) e (by rwa [List.getElem?_cons_succ])
    rw [Nat.add_zero] at hown
    unfold conflictsWith
    rw [hidx, hown]
    simp [hterm, hrest]

namespace RaftNode

/-- The log after the loop.  The first `k` entries of the request agree in
term with the log.  The rest is missing in the log, or its first entry meets
another term. -/
structure MergeCut (log : List LogEntry) (prev : Nat) (entries : List LogEntry) (k : Nat) :
    Prop where
  le_length : prev + k ≤ log.length
  le_entries : k ≤ entries.length
  agree : ∀ i < k, (log[prev + i]?).map LogEntry.term = (entries[i]?).map LogEntry.term
  cut : k = entries.length ∧ entries.foldl mergeLog log = log ∧
      conflictsWith log entries = false ∨
    k < entries.length ∧ entries.foldl mergeLog log = log.take (prev + k) ++ entries.drop k ∧
      (log.length = prev + k ∧ conflictsWith log entries = false ∨
        prev + k < log.length ∧ conflictsWith log entries = true)

/-- Entries that go on at the end of the log are appended. -/
theorem MergeCut.append {log : List LogEntry} {entries : List LogEntry} {k : Nat}
    (h : MergeCut log log.length entries k) :
    k = 0 ∧ entries.foldl mergeLog log = log ++ entries ∧ conflictsWith log entries = false := by
  have hk : k = 0 := by have := h.le_length; omega
  subst hk
  rcases h.cut with ⟨hlen, hfold, hconf⟩ | ⟨_, hfold, ⟨_, hconf⟩ | ⟨hlt, _⟩⟩
  · have hnil : entries = [] := List.length_eq_zero_iff.mp hlen.symm
    subst hnil
    exact ⟨rfl, by rw [List.append_nil]; rfl, rfl⟩
  · refine ⟨rfl, ?_, hconf⟩
    rw [hfold, Nat.add_zero, List.take_length, List.drop_zero]
  · omega

/-- The loop of `handle_append_entries` is one cut. -/
theorem foldl_mergeLog_cut (entries : List LogEntry) :
    ∀ {log : List LogEntry} {prev : Nat}, NumberedAfter prev entries → prev ≤ log.length →
      ∃ k, MergeCut log prev entries k := by
  induction entries with
  | nil =>
    intro log prev _ hle
    exact ⟨0, hle, Nat.le_refl 0, fun i hi => by omega, Or.inl ⟨rfl, rfl, rfl⟩⟩
  | cons entry entries ih =>
    intro log prev hnum hle
    have hidx : usizePred entry.index = prev := by
      have := hnum 0 entry rfl
      rw [this, Nat.add_zero, usizePred_succ]
    rcases Nat.lt_or_eq_of_le hle with hlt | rfl
    · have hown : log[prev]? = some log[prev] := List.getElem?_eq_getElem hlt
      by_cases hterm : log[prev].term = entry.term
      · -- the entry is there already, and the cut is that of the rest
        have hfold : (entry :: entries).foldl mergeLog log = entries.foldl mergeLog log := by
          rw [List.foldl_cons, mergeLog, hidx, hown]
          simp [hterm]
        have hconf : conflictsWith log (entry :: entries) = conflictsWith log entries := by
          rw [conflictsWith, hidx, hown]
          simp [hterm]
        obtain ⟨k, hk⟩ := ih (NumberedAfter.tail hnum) hlt
        refine ⟨k + 1, by have := hk.le_length; omega, Nat.succ_le_succ hk.le_entries, ?_, ?_⟩
        · intro i hi
          cases i with
          | zero => simp [hown, hterm]
          | succ i =>
            rw [List.getElem?_cons_succ, ← hk.agree i (by omega),
              show prev + (i + 1) = prev + 1 + i by omega]
        · rw [hfold, hconf, List.length_cons, List.drop_succ_cons,
            show prev + (k + 1) = prev + 1 + k by omega]
          rcases hk.cut with ⟨hlen, hrest⟩ | ⟨hlt', hrest⟩
          · exact Or.inl ⟨by omega, hrest⟩
          · exact Or.inr ⟨by omega, hrest⟩
      · -- the entry replaces the log from `prev` on, and the rest is appended
        have hfold : (entry :: entries).foldl mergeLog log =
            entries.foldl mergeLog (log.take prev ++ [entry]) := by
          rw [List.foldl_cons, mergeLog, hidx, hown]
          simp [hterm]
        have hconf : conflictsWith log (entry :: entries) = true := by
          rw [conflictsWith, hidx, hown]
          simp [hterm]
        have hlen : (log.take prev ++ [entry]).length = prev + 1 := by
          rw [List.length_append, List.length_take, List.length_singleton]
          omega
        obtain ⟨k, hk⟩ := ih (NumberedAfter.tail hnum) hlen.ge
        obtain ⟨-, happend, -⟩ := MergeCut.append (hlen.symm ▸ hk)
        refine ⟨0, by omega, Nat.zero_le _, fun i hi => by omega, Or.inr ⟨by simp, ?_, ?_⟩⟩
        · rw [hfold, happend, List.append_assoc]
          rfl
        · exact Or.inr ⟨by omega, hconf⟩
    · -- the log ends here, and the request is appended
      have hnone : log[log.length]? = none := List.getElem?_eq_none (Nat.le_refl _)
      have hfold : (entry :: entries).foldl mergeLog log =
          entries.foldl mergeLog (log ++ [entry]) := by
        rw [List.foldl_cons, mergeLog, hidx, hnone]
      have hconf : conflictsWith log (entry :: entries) =
          conflictsWith (log ++ [entry]) entries := by
        rw [conflictsWith, hidx, hnone]
      have hlen : (log ++ [entry]).length = log.length + 1 := by
        rw [List.length_append, List.length_singleton]
      obtain ⟨k, hk⟩ := ih (NumberedAfter.tail hnum) hlen.ge
      obtain ⟨-, happend, hrest⟩ := MergeCut.append (hlen.symm ▸ hk)
      refine ⟨0, by omega, Nat.zero_le _, fun i hi => by omega, Or.inr ⟨by simp, ?_, ?_⟩⟩
      · rw [hfold, happend, List.append_assoc, Nat.add_zero, List.take_length]
        rfl
      · exact Or.inl ⟨rfl, hconf.trans hrest⟩

/-! ## What a cut keeps -/

namespace MergeCut

variable {log entries : List LogEntry} {prev k : Nat}

theorem numbered (h : MergeCut log prev entries k) (hlog : Numbered log)
    (hnum : NumberedAfter prev entries) : Numbered (entries.foldl mergeLog log) := by
  rcases h.cut with ⟨_, hfold, _⟩ | ⟨_, hfold, _⟩ <;> rw [hfold]
  · exact hlog
  · have hlen : (log.take (prev + k)).length = prev + k := List.length_take_of_le h.le_length
    apply (hlog.take (prev + k)).append
    intro i e hi
    rw [List.getElem?_drop] at hi
    have := hnum _ e hi
    omega

/-- The entries of the log that stay have the terms of the request. -/
theorem agree_take (h : MergeCut log prev entries k) :
    ((log.drop prev).take k).map LogEntry.term = (entries.take k).map LogEntry.term := by
  apply List.ext_getElem?
  intro i
  rw [List.getElem?_map, List.getElem?_map, List.getElem?_take, List.getElem?_take]
  split_ifs with hi
  · rw [List.getElem?_drop]
    exact h.agree i hi
  · rfl

/-- The terms after the loop are those of the log, or those of the log up to
`prev` and then those of the request. -/
theorem terms (h : MergeCut log prev entries k) :
    entries.foldl mergeLog log = log ∧ conflictsWith log entries = false ∨
      (entries.foldl mergeLog log).map LogEntry.term =
        (log.take prev).map LogEntry.term ++ entries.map LogEntry.term := by
  rcases h.cut with ⟨_, hfold, hconf⟩ | ⟨_, hfold, _⟩
  · exact Or.inl ⟨hfold, hconf⟩
  · refine Or.inr ?_
    rw [hfold, List.take_add, List.map_append, List.map_append, h.agree_take, List.append_assoc,
      ← List.map_append, List.take_append_drop]

/-- With a conflict the log ends where the request ends. -/
theorem of_conflict (h : MergeCut log prev entries k) (hconf : conflictsWith log entries = true) :
    (entries.foldl mergeLog log).length = prev + entries.length ∧
      (entries.foldl mergeLog log).getLast? = entries.getLast? := by
  rcases h.cut with ⟨_, _, hfalse⟩ | ⟨hlt, hfold, _⟩
  · rw [hconf] at hfalse
    cases hfalse
  · have hle := h.le_length
    rw [hfold]
    constructor
    · rw [List.length_append, List.length_take, List.length_drop]
      omega
    · rw [List.getLast?_append, List.getLast?_drop, if_neg (by omega)]
      cases hlast : entries.getLast? with
      | none =>
        rw [List.getLast?_eq_none_iff.mp hlast] at hlt
        simp at hlt
      | some last => rfl

/-- Without a conflict the log is only extended. -/
theorem prefix_of_no_conflict (h : MergeCut log prev entries k)
    (hconf : conflictsWith log entries = false) : log <+: entries.foldl mergeLog log := by
  rcases h.cut with ⟨_, hfold, _⟩ | ⟨_, hfold, ⟨hlen, _⟩ | ⟨_, htrue⟩⟩
  · rw [hfold]
  · rw [hfold, ← hlen, List.take_length]
    exact List.prefix_append _ _
  · rw [hconf] at htrue
    cases htrue

end MergeCut

/-- The entry before the new ones is in the log, with the term that the
request names. -/
theorem prevLogMatches_spec {args : AppendEntriesArgs} {n : RaftNode}
    (h : prevLogMatches args n = true) :
    args.prevLogIndex = 0 ∨ 0 < args.prevLogIndex ∧ args.prevLogIndex ≤ n.log.length ∧
      ∃ e, n.log[args.prevLogIndex - 1]? = some e ∧ e.term = args.prevLogTerm := by
  rw [prevLogMatches, Bool.or_eq_true] at h
  rcases h with h | h
  · exact Or.inl (eq_of_beq h)
  · rcases Nat.eq_zero_or_pos args.prevLogIndex with h0 | hpos
    · exact Or.inl h0
    · obtain ⟨e, he, hterm⟩ := Option.map_eq_some_iff.mp (eq_of_beq h)
      have := (List.getElem?_eq_some_iff.mp he).1
      exact Or.inr ⟨hpos, by omega, e, he, hterm⟩

theorem prevLogMatches_le {args : AppendEntriesArgs} {n : RaftNode}
    (h : prevLogMatches args n = true) : args.prevLogIndex ≤ n.log.length := by
  rcases prevLogMatches_spec h with h0 | ⟨_, hle, _⟩
  · omega
  · exact hle

end RaftNode

end OxideKv
