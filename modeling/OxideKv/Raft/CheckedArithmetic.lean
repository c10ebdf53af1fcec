import OxideKv.Raft.CommitRule
import OxideKv.Raft.OwnEntry

/-!
# The handlers in checked arithmetic

The definitions of `Checked` are those of `Handlers` with every addition,
subtraction and index of the source checked, as a build with overflow checks
does them: `none` is the panic.  `PeerEvent` are the messages that a peer can
send before there is a snapshot, the election timer, and the promotions that
follow from the replies to its probes and requests.

`InRange` is the condition on a message or a step: the term after the node's
fits `u64` where it is computed, and the entries that are merged have indices
from 1 up to one past the end of the log (`InOrder`), as entries have that follow
one another.  Under it the checked step is the step of the model, and the log
stays numbered (`handlers_stay_in_range`).
-/

namespace OxideKv

open Run

/-- `u64` and `usize` subtraction; `none` is the underflow. -/
def u64Sub (a b : Nat) : Option Nat := if b ≤ a then some (a - b) else none

theorem u64Add_eq {a b : Nat} (h : a + b < 2 ^ 64) : u64Add a b = some (a + b) := if_pos h

theorem u64Sub_one {a : Nat} (h : 1 ≤ a) : u64Sub a 1 = some (usizePred a) := by
  obtain ⟨i, rfl⟩ : ∃ i, a = i + 1 := ⟨a - 1, by omega⟩
  rw [u64Sub, if_pos h]
  rfl

namespace RaftNode

namespace Checked

/-! ## The calls -/

def installConfiguration (config : Configuration) (n : RaftNode) : Option RaftNode :=
  let n := { n with currentConfig := config, peers := peersOf n.nodeId config }
  if n.state = .leader then
    match n.pendingPostJointSimple with
    | none => some n
    | some simpleNew =>
        let n := { n with pendingPostJointSimple := none }
        if postJointMatches config simpleNew then
          (u64Add n.log.length 1).map fun newIndex =>
            (appendEntry
              { term := n.currentTerm
                index := newIndex
                command := .installConfiguration simpleNew } n).2
        else some n
  else some n

def applyCommand (unixMs : Nat) (command : Command) (n : RaftNode) : Option RaftNode :=
  match command with
  | .installConfiguration config => installConfiguration config n
  | command => some (applyStore unixMs command n)

def applyLoop (clock : Clock) : Nat → RaftNode → Option RaftNode
  | 0, n => some n
  | fuel + 1, n =>
      if n.lastApplied < n.commitIndex then
        match n.log[n.lastApplied]? with
        -- the sum is the index in the text of the error
        | none => (u64Add n.lastApplied 1).map fun _ => n
        | some entry =>
            (applyCommand (clock.unixMs n.lastApplied) entry.command n).bind fun n' =>
              (u64Add n'.lastApplied 1).bind fun lastApplied =>
                applyLoop clock fuel { n' with lastApplied := lastApplied }
      else some n

def applyLogs (clock : Clock) (n : RaftNode) : Option RaftNode :=
  applyLoop clock (n.commitIndex - n.lastApplied) n

def handlePreVote (clock : Clock) (args : RequestVoteArgs) (n : RaftNode) :
    Option (VoteResponseArgs × RaftNode) :=
  let n := { n with lastHeartbeat := clock.now }
  let refused : VoteResponseArgs × RaftNode := ({ term := n.currentTerm, voteGranted := false }, n)
  -- the sum is not computed for an old term
  if args.term < n.currentTerm then some refused
  else
    (u64Add n.currentTerm 1).map fun next =>
      if next < args.term then refused
      else if args.term = n.currentTerm ∧ n.state = .leader then refused
      else
        ({ term := n.currentTerm
           voteGranted := n.logUpToDate args.lastLogIndex args.lastLogTerm }, n)

def handleTxVoteRequest (clock : Clock) (req : VoteRequest) (n : RaftNode) :
    Option (VoteResponse × RaftNode) :=
  if req.term < n.currentTerm then
    some
      ({ term := n.currentTerm
         voteGranted := false
         reason := s!"stale term: request term {req.term} < current term {n.currentTerm}" }, n)
  else if n.currentTerm < req.term then
    let n := stepDown req.term n
    some
      ({ term := n.currentTerm
         voteGranted := false
         reason :=
          s!"term advance: adopted term {req.term} but deferring vote to elected leader" },
        n)
  else if !n.logUpToDate req.lastLogIndex req.lastLogTerm then
    let (index, term) := n.getLastLogInfo
    some
      ({ term := n.currentTerm
         voteGranted := false
         reason := s!"leader log stale: leader=({req.lastLogIndex}, {req.lastLogTerm}) local=({index}, {term})" },
        n)
  else
    (applyLogs clock (fastForwardCommit req.lastLogIndex n)).map fun n =>
      if !n.stateMachine.isTxPending req.txId then
        ({ term := n.currentTerm
           voteGranted := false
           reason := s!"tx not pending: {req.txId}" }, n)
      else
        ({ term := n.currentTerm, voteGranted := true, reason := "" },
          { n with
            stateMachine := (StateMachine.recordVote req.txId n.nodeId .yes n.stateMachine).2 })

def mergeEntry (n : RaftNode) (entry : LogEntry) : Option RaftNode :=
  (u64Sub entry.index 1).bind fun idx =>
    if idx < n.log.length then
      (n.log[idx]?).map fun own =>
        if own.term ≠ entry.term then appendWal entry { n with log := n.log.take idx ++ [entry] }
        else n
    else some (appendWal entry { n with log := n.log ++ [entry] })

def mergeEntries : List LogEntry → RaftNode → Option RaftNode
  | [], n => some n
  | entry :: rest, n => (mergeEntry n entry).bind (mergeEntries rest)

def prevLogMatches (args : AppendEntriesArgs) (n : RaftNode) : Option Bool :=
  if 0 < args.prevLogIndex then
    (u64Sub args.prevLogIndex 1).map fun idx =>
      (n.log[idx]?).map LogEntry.term == some args.prevLogTerm
  else some true

def followCommit (clock : Clock) (leaderCommit : Nat) (n : RaftNode) : Option RaftNode :=
  if n.commitIndex < leaderCommit then
    applyLogs clock { n with commitIndex := min leaderCommit n.log.length }
  else some n

def handleAppendEntries (clock : Clock) (args : AppendEntriesArgs) (n : RaftNode) :
    Option (AppendReplyArgs × RaftNode) :=
  if args.term < n.currentTerm then
    some ({ term := n.currentTerm, success := false }, n)
  else if args.term = n.currentTerm ∧ n.state = .leader then
    some ({ term := n.currentTerm, success := false }, n)
  else
    let n := followLeader clock args.term n
    (prevLogMatches args n).bind fun ok =>
      if !ok then some ({ term := n.currentTerm, success := false }, n)
      else
        (mergeEntries args.entries n).bind fun n =>
          (followCommit clock args.leaderCommit n).map fun n =>
            ({ term := n.currentTerm, success := true }, n)

def promoteToCandidate (clock : Clock) (n : RaftNode) : Option RaftNode :=
  (u64Add n.currentTerm 1).map fun term =>
    let n := saveMeta
      { n with
        currentTerm := term
        state := .candidate
        voteFor := some n.nodeId }
    { n with lastHeartbeat := clock.now }

def becomeLeader (clock : Clock) (n : RaftNode) : Option RaftNode :=
  if n.state = .leader then some n
  else
    (u64Add n.log.length 1).map fun nextIdx =>
      { n with
        state := .leader
        nextIndex := fun p => if p ∈ n.peers then some nextIdx else none
        lastHeartbeat := clock.now }

def voteQuorum (clock : Clock) (term : Nat) (n : RaftNode) : Option RaftNode :=
  if n.state = .candidate ∧ n.currentTerm = term then becomeLeader clock n else some n

def preVoteRound (n : RaftNode) : Option VoteRound :=
  (u64Add n.currentTerm 1).map fun probedTerm =>
    { peers := n.peers
      args :=
        { term := probedTerm
          candidateId := n.nodeId
          lastLogIndex := n.getLastLogInfo.1
          lastLogTerm := n.getLastLogInfo.2 } }

def enterPreVote (probedTerm : Nat) (n : RaftNode) : Option (Bool × RaftNode) :=
  -- the sum is computed for a follower only
  if n.state = .follower then
    (u64Add n.currentTerm 1).map fun next =>
      if next = probedTerm then (true, { n with state := .preCandidate }) else (false, n)
  else some (false, n)

def becomeLeaderChecked (clock : Clock) (n : RaftNode) : Option (Bool × RaftNode) :=
  if n.state ≠ .candidate then some (false, n) else (becomeLeader clock n).map fun n => (true, n)

def preVoteAlone (clock : Clock) (n : RaftNode) : Option RaftNode :=
  if n.state = .preCandidate then
    (promoteToCandidate clock n).bind fun n => (becomeLeaderChecked clock n).map Prod.snd
  else some n

def preVoteQuorum (clock : Clock) (n : RaftNode) : Option (Bool × RaftNode) :=
  if n.state ≠ .preCandidate then some (false, n)
  else (promoteToCandidate clock n).map fun n => (true, n)

end Checked

/-- The messages of a peer, the election timer, and the promotions. -/
inductive PeerEvent where
  | requestVote (clock : Clock) (args : RequestVoteArgs)
  | preVote (clock : Clock) (args : RequestVoteArgs)
  | txVoteRequest (clock : Clock) (req : VoteRequest)
  | appendEntries (clock : Clock) (args : AppendEntriesArgs)
  /-- The election timer fires: the read of `become_pre_candidate`. -/
  | electionTimer
  | enterPreVote (probedTerm : Nat)
  | preVoteAlone (clock : Clock)
  | preVoteStale
  | preVoteQuorum (clock : Clock)
  | becomeCandidate (clock : Clock)
  | voteQuorum (clock : Clock) (term : Nat)
  | voteRefused (term : Nat) (reply : VoteResponseArgs)

namespace PeerEvent

/-- The call of the node, if the step is one. -/
def call : PeerEvent → Option NodeEvent
  | .requestVote clock args => some (.requestVote clock args)
  | .preVote clock args => some (.preVote clock args)
  | .txVoteRequest clock req => some (.txVoteRequest clock req)
  | .appendEntries clock args => some (.appendEntries clock args)
  | .electionTimer => none
  | .enterPreVote probedTerm => some (.enterPreVote probedTerm)
  | .preVoteAlone clock => some (.preVoteAlone clock)
  | .preVoteStale => some .preVoteStale
  | .preVoteQuorum clock => some (.preVoteQuorum clock)
  | .becomeCandidate clock => some (.becomeCandidate clock)
  | .voteQuorum clock term => some (.voteQuorum clock term)
  | .voteRefused term reply => some (.voteRefused term reply)

def entries : PeerEvent → List LogEntry
  | .appendEntries _ args => args.entries
  | _ => []

end PeerEvent

def Checked.step (n : RaftNode) : PeerEvent → Option RaftNode
  | .requestVote clock args => some (handleRequestVote clock args n).2
  | .preVote clock args => (handlePreVote clock args n).map Prod.snd
  | .txVoteRequest clock req => (handleTxVoteRequest clock req n).map Prod.snd
  | .appendEntries clock args => (handleAppendEntries clock args n).map Prod.snd
  | .electionTimer => (preVoteRound n).map fun _ => n
  | .enterPreVote probedTerm => (enterPreVote probedTerm n).map Prod.snd
  | .preVoteAlone clock => preVoteAlone clock n
  | .preVoteStale => some (preVoteStale n)
  | .preVoteQuorum clock => (preVoteQuorum clock n).map Prod.snd
  | .becomeCandidate clock => promoteToCandidate clock n
  | .voteQuorum clock term => voteQuorum clock term n
  | .voteRefused term reply => some (voteRefused term reply n)

/-! ## In range -/

/-- Each entry has its place in the log, or just behind it, when its turn
comes. -/
def InOrder : List LogEntry → List LogEntry → Prop
  | _, [] => True
  | log, entry :: rest =>
      1 ≤ entry.index ∧ entry.index ≤ log.length + 1 ∧ InOrder (mergeLog log entry) rest

instance decidableInOrder : (entries log : List LogEntry) → Decidable (InOrder log entries)
  | [], _ => .isTrue trivial
  | entry :: rest, log =>
      have := decidableInOrder rest (mergeLog log entry)
      inferInstanceAs (Decidable (1 ≤ entry.index ∧ entry.index ≤ log.length + 1 ∧
        InOrder (mergeLog log entry) rest))

/-- Where the term after the node's is computed it fits, and the entries that
are merged are in order. -/
def InRange (n : RaftNode) : PeerEvent → Prop
  | .preVote _ args => n.currentTerm ≤ args.term → n.currentTerm + 1 < 2 ^ 64
  | .appendEntries _ args =>
      n.Accepts args.term → prevLogMatches args n = true → InOrder n.log args.entries
  | .electionTimer | .becomeCandidate _ => n.currentTerm + 1 < 2 ^ 64
  | .enterPreVote _ => n.state = .follower → n.currentTerm + 1 < 2 ^ 64
  | .preVoteAlone _ | .preVoteQuorum _ => n.state = .preCandidate → n.currentTerm + 1 < 2 ^ 64
  | _ => True

/-- The log and the entries of a message lie in memory together. -/
def InMemory (n : RaftNode) (e : PeerEvent) : Prop := n.log.length + e.entries.length < 2 ^ 63

instance (n : RaftNode) (e : PeerEvent) : Decidable (n.InRange e) :=
  decidable_of_iff
    ((match e with
      | .preVote _ args => decide (n.currentTerm ≤ args.term → n.currentTerm + 1 < 2 ^ 64)
      | .appendEntries _ args =>
          decide (n.Accepts args.term → prevLogMatches args n = true →
            InOrder n.log args.entries)
      | .electionTimer | .becomeCandidate _ => decide (n.currentTerm + 1 < 2 ^ 64)
      | .enterPreVote _ => decide (n.state = .follower → n.currentTerm + 1 < 2 ^ 64)
      | .preVoteAlone _ | .preVoteQuorum _ =>
          decide (n.state = .preCandidate → n.currentTerm + 1 < 2 ^ 64)
      | _ => true) = true) (by cases e <;> simp only [InRange, decide_eq_true_eq])

instance (n : RaftNode) (e : PeerEvent) : Decidable (n.InMemory e) :=
  inferInstanceAs (Decidable (_ < _))

theorem mergeLog_numbered {log : List LogEntry} {entry : LogEntry} (hnum : Numbered log)
    (hpos : 1 ≤ entry.index) (hle : entry.index ≤ log.length + 1) :
    Numbered (mergeLog log entry) ∧ (mergeLog log entry).length ≤ log.length + 1 := by
  obtain ⟨idx, hidx⟩ : ∃ idx, entry.index = idx + 1 := ⟨entry.index - 1, by omega⟩
  have hpush : ∀ kept : List LogEntry, Numbered kept → kept.length = idx →
      Numbered (kept ++ [entry]) := by
    intro kept hkept hlen
    apply hkept.append
    intro i e hi
    rw [List.getElem?_singleton] at hi
    split_ifs at hi with hzero
    obtain rfl := Option.some.inj hi
    omega
  unfold mergeLog
  rw [hidx, usizePred_succ]
  cases hown : log[idx]? with
  | none =>
    have hlen : log.length ≤ idx := List.getElem?_eq_none_iff.mp hown
    exact ⟨hpush log hnum (by omega), by simp⟩
  | some own =>
    have hlt : idx < log.length := (List.getElem?_eq_some_iff.mp hown).1
    dsimp only
    split_ifs with hterm
    · exact ⟨hpush (log.take idx) (hnum.take idx) (by simp; omega), by simp⟩
    · exact ⟨hnum, by omega⟩

theorem InOrder.numbered {entries : List LogEntry} :
    ∀ {log : List LogEntry}, InOrder log entries → Numbered log →
      Numbered (entries.foldl mergeLog log) ∧
        (entries.foldl mergeLog log).length ≤ log.length + entries.length := by
  induction entries with
  | nil => exact fun _ hnum => ⟨hnum, le_rfl⟩
  | cons entry rest ih =>
    rintro log ⟨hpos, hle, hrest⟩ hnum
    obtain ⟨hmerged, hlen⟩ := mergeLog_numbered hnum hpos hle
    obtain ⟨hfold, hlens⟩ := ih hrest hmerged
    refine ⟨hfold, ?_⟩
    rw [List.foldl_cons, List.length_cons]
    omega

/-! ## The checked calls -/

namespace Checked

/-- The entries that the log can come to have while commands are applied: a
second phase that is pending adds one. -/
def room (n : RaftNode) : Nat :=
  n.log.length + if n.pendingPostJointSimple.isSome then 1 else 0

theorem room_le (n : RaftNode) : room n ≤ n.log.length + 1 := by
  unfold room
  split_ifs <;> omega

theorem installConfiguration_eq (config : Configuration) {n : RaftNode}
    (hlen : n.log.length + 1 < 2 ^ 64) :
    installConfiguration config n = some (RaftNode.installConfiguration config n) := by
  unfold installConfiguration RaftNode.installConfiguration
  dsimp only
  split_ifs
  · cases n.pendingPostJointSimple with
    | none => rfl
    | some simpleNew =>
      dsimp only
      split_ifs
      · rw [u64Add_eq hlen]
        rfl
      · rfl
  · rfl

theorem installConfiguration_room (config : Configuration) (n : RaftNode) :
    room (RaftNode.installConfiguration config n) ≤ room n := by
  have hlen : ∀ (entry : LogEntry) (m : RaftNode),
      (appendEntry entry m).2.log.length ≤ m.log.length + 1 ∧
        (appendEntry entry m).2.pendingPostJointSimple = m.pendingPostJointSimple := by
    intro entry m
    obtain ⟨storage, -, -, ⟨heq, -⟩ | ⟨e, heq, -⟩⟩ := appendEntry_cases entry m <;> rw [heq]
    · exact ⟨by simp, rfl⟩
    · exact ⟨Nat.le_succ _, rfl⟩
  unfold RaftNode.installConfiguration
  dsimp only
  split_ifs
  · cases hpend : n.pendingPostJointSimple with
    | none => simp [room, hpend]
    | some simpleNew =>
      dsimp only
      split_ifs
      · obtain ⟨hle, hnone⟩ := hlen
          (RaftNode.nextEntry (.installConfiguration simpleNew)
            { n with
              currentConfig := config
              peers := peersOf n.nodeId config
              pendingPostJointSimple := none })
          { n with
            currentConfig := config
            peers := peersOf n.nodeId config
            pendingPostJointSimple := none }
        simp only [room, hnone, hpend, Option.isSome_some, if_true, Option.isSome_none]
        exact hle
      · simp [room, hpend]
  · exact le_rfl

theorem applyCommand_eq (unixMs : Nat) (command : Command) {n : RaftNode}
    (hlen : n.log.length + 1 < 2 ^ 64) :
    applyCommand unixMs command n = some (RaftNode.applyCommand unixMs command n) := by
  cases command with
  | installConfiguration config => exact installConfiguration_eq config hlen
  | _ => rfl

theorem applyCommand_room (unixMs : Nat) (command : Command) (n : RaftNode) :
    room (RaftNode.applyCommand unixMs command n) ≤ room n := by
  cases command with
  | installConfiguration config => exact installConfiguration_room config n
  | _ => exact le_rfl

/-- `last_applied` stays below the length of the log, or below `commit_index`. -/
theorem applyLoop_eq (clock : Clock) (fuel : Nat) :
    ∀ {n : RaftNode}, room n + 1 < 2 ^ 64 → n.commitIndex < 2 ^ 64 →
      applyLoop clock fuel n = some (RaftNode.applyLoop clock fuel n) := by
  induction fuel with
  | zero => exact fun _ _ => rfl
  | succ fuel ih =>
    intro n hroom hcommit
    have hlen : n.log.length ≤ room n := Nat.le_add_right _ _
    unfold applyLoop RaftNode.applyLoop
    split_ifs with hlt
    · cases hentry : n.log[n.lastApplied]? with
      | none =>
        dsimp only
        rw [u64Add_eq (by omega)]
        rfl
      | some entry =>
        have happlied := (List.getElem?_eq_some_iff.mp hentry).1
        have hlast := applyCommand_lastApplied (clock.unixMs n.lastApplied) entry.command n
        have hext := applyCommand_extends (clock.unixMs n.lastApplied) entry.command n
        have hroom' := applyCommand_room (clock.unixMs n.lastApplied) entry.command n
        dsimp only
        rw [applyCommand_eq _ _ (by omega), Option.bind_some, u64Add_eq (by omega),
          Option.bind_some]
        apply ih
        · exact lt_of_le_of_lt (Nat.succ_le_succ hroom') hroom
        · exact hext.commitIndex.trans_lt hcommit
    · rfl

theorem applyLogs_eq (clock : Clock) {n : RaftNode} (hroom : room n + 1 < 2 ^ 64)
    (hcommit : n.commitIndex < 2 ^ 64) :
    applyLogs clock n = some (RaftNode.applyLogs clock n) :=
  applyLoop_eq clock _ hroom hcommit

theorem mergeEntry_eq (n : RaftNode) {entry : LogEntry} (hpos : 1 ≤ entry.index) :
    mergeEntry n entry = some (RaftNode.mergeEntry n entry) := by
  unfold mergeEntry RaftNode.mergeEntry
  rw [u64Sub_one hpos, Option.bind_some]
  dsimp only
  by_cases hlt : usizePred entry.index < n.log.length
  · rw [if_pos hlt, List.getElem?_eq_getElem hlt]
    rfl
  · rw [if_neg hlt, List.getElem?_eq_none (Nat.not_lt.mp hlt)]

theorem mergeEntries_eq {entries : List LogEntry} :
    ∀ {n : RaftNode}, InOrder n.log entries →
      mergeEntries entries n = some (entries.foldl RaftNode.mergeEntry n) := by
  induction entries with
  | nil => exact fun _ => rfl
  | cons entry rest ih =>
    rintro n ⟨hpos, -, hrest⟩
    rw [mergeEntries, mergeEntry_eq n hpos, Option.bind_some, List.foldl_cons]
    apply ih
    obtain ⟨storage, -, -, heq⟩ := RaftNode.mergeEntry_eq n entry
    rw [heq]
    exact hrest

theorem prevLogMatches_eq (args : AppendEntriesArgs) (n : RaftNode) :
    prevLogMatches args n = some (RaftNode.prevLogMatches args n) := by
  unfold prevLogMatches RaftNode.prevLogMatches
  by_cases hpos : 0 < args.prevLogIndex
  · have hne : (args.prevLogIndex == 0) = false := by simp; omega
    rw [if_pos hpos, u64Sub, if_pos (Nat.succ_le_of_lt hpos), hne]
    rfl
  · have hzero : (args.prevLogIndex == 0) = true := by simp; omega
    rw [if_neg hpos, hzero]
    rfl

theorem promoteToCandidate_eq (clock : Clock) {n : RaftNode} (hterm : n.currentTerm + 1 < 2 ^ 64) :
    promoteToCandidate clock n = some (RaftNode.promoteToCandidate clock n) := by
  unfold promoteToCandidate RaftNode.promoteToCandidate
  rw [u64Add_eq hterm, u64Succ_of_ne (by omega)]
  rfl

theorem becomeLeader_eq (clock : Clock) {n : RaftNode} (hlen : n.log.length + 1 < 2 ^ 64) :
    becomeLeader clock n = some (RaftNode.becomeLeader clock n) := by
  unfold becomeLeader RaftNode.becomeLeader
  split_ifs
  · rfl
  · rw [u64Add_eq hlen]
    rfl

theorem handlePreVote_eq (clock : Clock) {args : RequestVoteArgs} {n : RaftNode}
    (hrange : n.InRange (.preVote clock args)) :
    handlePreVote clock args n = some (RaftNode.handlePreVote clock args n) := by
  unfold handlePreVote RaftNode.handlePreVote
  dsimp only
  by_cases hold : args.term < n.currentTerm
  · rw [if_pos hold, if_pos (Or.inl hold)]
  · have hterm : n.currentTerm + 1 < 2 ^ 64 := hrange (Nat.not_lt.mp hold)
    rw [if_neg hold, u64Add_eq hterm, Option.map_some, u64Succ_of_ne (by omega)]
    by_cases hfar : n.currentTerm + 1 < args.term
    · rw [if_pos hfar, if_pos (Or.inr hfar)]
    · rw [if_neg hfar, if_neg (not_or.mpr ⟨hold, hfar⟩)]

theorem enterPreVote_eq {probedTerm : Nat} {n : RaftNode}
    (hrange : n.InRange (.enterPreVote probedTerm)) :
    enterPreVote probedTerm n = some (RaftNode.enterPreVote probedTerm n) := by
  unfold enterPreVote RaftNode.enterPreVote
  by_cases hstate : n.state = .follower
  · have hterm : n.currentTerm + 1 < 2 ^ 64 := hrange hstate
    rw [if_pos hstate, u64Add_eq hterm, Option.map_some, u64Succ_of_ne (by omega)]
    by_cases hprobed : n.currentTerm + 1 = probedTerm
    · rw [if_pos hprobed, if_pos ⟨hstate, hprobed⟩]
    · rw [if_neg hprobed, if_neg (fun h => hprobed h.2)]
  · rw [if_neg hstate, if_neg (fun h => hstate h.1)]

theorem preVoteAlone_eq {clock : Clock} {n : RaftNode} (hlen : n.log.length + 1 < 2 ^ 64)
    (hrange : n.InRange (.preVoteAlone clock)) :
    preVoteAlone clock n = some (RaftNode.preVoteAlone clock n) := by
  unfold preVoteAlone RaftNode.preVoteAlone
  by_cases hstate : n.state = .preCandidate
  · have hlen' : (RaftNode.promoteToCandidate clock n).log.length + 1 < 2 ^ 64 := by
      obtain ⟨storage, -, -, -, heq⟩ := RaftNode.promoteToCandidate_eq clock n
      rw [heq]
      exact hlen
    rw [if_pos hstate, if_pos hstate, promoteToCandidate_eq clock (hrange hstate), Option.bind_some]
    unfold becomeLeaderChecked RaftNode.becomeLeaderChecked
    split_ifs
    · rfl
    · rw [becomeLeader_eq clock hlen']
      rfl
  · rw [if_neg hstate, if_neg hstate]

theorem preVoteQuorum_eq {clock : Clock} {n : RaftNode}
    (hrange : n.InRange (.preVoteQuorum clock)) :
    preVoteQuorum clock n = some (RaftNode.preVoteQuorum clock n) := by
  unfold preVoteQuorum RaftNode.preVoteQuorum
  by_cases hstate : n.state = .preCandidate
  · rw [if_neg (not_not.mpr hstate), if_neg (not_not.mpr hstate),
      promoteToCandidate_eq clock (hrange hstate)]
    rfl
  · rw [if_pos hstate, if_pos hstate]

theorem voteQuorum_eq (clock : Clock) (term : Nat) {n : RaftNode}
    (hlen : n.log.length + 1 < 2 ^ 64) :
    voteQuorum clock term n = some (RaftNode.voteQuorum clock term n) := by
  unfold voteQuorum RaftNode.voteQuorum
  split_ifs
  · exact becomeLeader_eq clock hlen
  · rfl

theorem handleTxVoteRequest_eq (clock : Clock) (req : VoteRequest) {n : RaftNode}
    (hroom : room n + 1 < 2 ^ 64) (hcommit : n.commitIndex < 2 ^ 64) :
    handleTxVoteRequest clock req n = some (RaftNode.handleTxVoteRequest clock req n) := by
  have happly : applyLogs clock (fastForwardCommit req.lastLogIndex n) =
      some (RaftNode.applyLogs clock (fastForwardCommit req.lastLogIndex n)) := by
    have hlen : n.log.length ≤ room n := Nat.le_add_right _ _
    rcases fastForwardCommit_eq req.lastLogIndex n with heq | ⟨-, hle, heq⟩ <;> rw [heq]
    · exact applyLogs_eq clock hroom hcommit
    · exact applyLogs_eq clock hroom (by show req.lastLogIndex < 2 ^ 64; omega)
  unfold handleTxVoteRequest RaftNode.handleTxVoteRequest
  split_ifs
  · rfl
  · rfl
  · rfl
  · rw [happly, Option.map_some]

theorem followCommit_eq (clock : Clock) (leaderCommit : Nat) {n : RaftNode}
    (hlen : n.log.length < 2 ^ 63) :
    followCommit clock leaderCommit n = some (RaftNode.followCommit clock leaderCommit n) := by
  unfold followCommit RaftNode.followCommit
  split_ifs
  · apply applyLogs_eq
    · refine lt_of_le_of_lt (Nat.succ_le_succ (room_le _)) ?_
      show n.log.length + 1 + 1 < 2 ^ 64
      omega
    · show min leaderCommit n.log.length < 2 ^ 64
      omega
  · rfl

theorem handleAppendEntries_eq {clock : Clock} {args : AppendEntriesArgs} {n : RaftNode}
    (hnum : Numbered n.log) (hmem : n.InMemory (.appendEntries clock args))
    (hrange : n.InRange (.appendEntries clock args)) :
    handleAppendEntries clock args n = some (RaftNode.handleAppendEntries clock args n) := by
  unfold handleAppendEntries RaftNode.handleAppendEntries
  split_ifs with hlt hsame
  · rfl
  · rfl
  · have hle : n.currentTerm ≤ args.term := Nat.not_lt.mp hlt
    obtain ⟨storage, -, -, -, hfollow⟩ := followLeader_eq clock hle
    have hprev : RaftNode.prevLogMatches args (followLeader clock args.term n) =
        RaftNode.prevLogMatches args n := by
      rw [hfollow]
      rfl
    dsimp only
    rw [prevLogMatches_eq, Option.bind_some, hprev]
    cases hmatch : RaftNode.prevLogMatches args n with
    | false => rfl
    | true =>
      have horder : InOrder n.log args.entries := hrange ⟨hle, hsame⟩ hmatch
      obtain ⟨-, hlens⟩ := horder.numbered hnum
      have hmerge : mergeEntries args.entries (followLeader clock args.term n) =
          some (args.entries.foldl RaftNode.mergeEntry (followLeader clock args.term n)) := by
        apply mergeEntries_eq
        rw [hfollow]
        exact horder
      obtain ⟨storage', -, -, hfold⟩ :=
        foldl_mergeEntry_eq args.entries (followLeader clock args.term n)
      have hlen : (args.entries.foldl RaftNode.mergeEntry
          (followLeader clock args.term n)).log.length < 2 ^ 63 := by
        have hmem' : n.log.length + args.entries.length < 2 ^ 63 := hmem
        rw [hfold, hfollow]
        exact lt_of_le_of_lt hlens hmem'
      have hcommits := followCommit_eq clock args.leaderCommit hlen
      rw [hmerge, Option.bind_some, hcommits]
      rfl

end Checked

/-! ## Runs -/

/-- Every entry carries its position, and `commit_index` is a `u64`. -/
structure WellNumbered (n : RaftNode) : Prop where
  numbered : Numbered n.log
  commit_lt : n.commitIndex < 2 ^ 64

theorem WellNumbered.of_same {n n' : RaftNode} (h : WellNumbered n) (hlog : n'.log = n.log)
    (hcommit : n'.commitIndex = n.commitIndex) : WellNumbered n' :=
  ⟨hlog ▸ h.numbered, hcommit ▸ h.commit_lt⟩

theorem WellNumbered.of_extends {n n' : RaftNode} (h : WellNumbered n) (hext : Extends n n') :
    WellNumbered n' := by
  refine ⟨hext.numbered h.numbered, ?_⟩
  rw [hext.commitIndex]
  exact h.commit_lt

theorem WellNumbered.roleMoved {n n' : RaftNode} (h : WellNumbered n) (hmoved : RoleMoved n n') :
    WellNumbered n' := by
  obtain ⟨storage, -, -, -, _, _, _, _, _, rfl⟩ := hmoved
  exact h.of_same rfl rfl

/-- A call of an election. -/
theorem WellNumbered.movesRole {n : RaftNode} {e : PeerEvent} {c : NodeEvent} (h : WellNumbered n)
    (hcall : e.call = some c) (hc : c.MovesRole = true) :
    ∃ n', e.call.elim (some n) n.step = some n' ∧ WellNumbered n' := by
  obtain ⟨n', hstep⟩ : ∃ n', n.step c = some n' := by
    cases c <;> first | exact ⟨_, rfl⟩ | cases hc
  rw [hcall]
  exact ⟨n', hstep, h.roleMoved (step_roleMoved hstep hc)⟩

theorem WellNumbered.handleTxVoteRequest {n : RaftNode} (h : WellNumbered n) (clock : Clock)
    (req : VoteRequest) (hlen : n.log.length < 2 ^ 63) :
    WellNumbered (handleTxVoteRequest clock req n).2 := by
  have happly : WellNumbered (applyLogs clock (fastForwardCommit req.lastLogIndex n)) := by
    refine WellNumbered.of_extends ?_ (applyLogs_extends clock _)
    rcases fastForwardCommit_eq req.lastLogIndex n with heq | ⟨-, hle, heq⟩ <;> rw [heq]
    · exact h
    · exact ⟨h.numbered, by show req.lastLogIndex < 2 ^ 64; omega⟩
  rcases handleTxVoteRequest_cases clock req n with heq | ⟨-, heq⟩ | ⟨-, -, heq | heq⟩ <;> rw [heq]
  · exact h
  · exact h.roleMoved (stepDown_roleMoved req.term n)
  · exact happly
  · exact happly.of_same rfl rfl

theorem WellNumbered.followCommit {n : RaftNode} (h : WellNumbered n)
    (hlen : n.log.length < 2 ^ 63) (clock : Clock) (leaderCommit : Nat) :
    WellNumbered (followCommit clock leaderCommit n) := by
  unfold RaftNode.followCommit
  split_ifs
  · have hmoved : WellNumbered { n with commitIndex := min leaderCommit n.log.length } :=
      ⟨h.numbered, by show min leaderCommit n.log.length < 2 ^ 64; omega⟩
    exact hmoved.of_extends (applyLogs_extends clock _)
  · exact h

theorem WellNumbered.handleAppendEntries {n : RaftNode} (h : WellNumbered n) {clock : Clock}
    {args : AppendEntriesArgs} (hmem : n.InMemory (.appendEntries clock args))
    (hrange : n.InRange (.appendEntries clock args)) :
    WellNumbered (handleAppendEntries clock args n).2 := by
  rcases handleAppendEntries_cases clock args n with
    ⟨-, heq⟩ | ⟨hacc, ⟨-, heq⟩ | ⟨hmatch, heq⟩⟩ <;> rw [heq]
  · exact h
  · obtain ⟨storage, -, -, -, hfollow⟩ := followLeader_eq clock hacc.1
    rw [hfollow]
    exact h.of_same rfl rfl
  · obtain ⟨storage, -, -, -, hfollow⟩ := followLeader_eq clock hacc.1
    obtain ⟨storage', -, -, hmerge⟩ :=
      foldl_mergeEntry_eq args.entries (followLeader clock args.term n)
    obtain ⟨hnum, hlen⟩ := InOrder.numbered (hrange hacc hmatch) h.numbered
    have hmem' : n.log.length + args.entries.length < 2 ^ 63 := hmem
    have hmerged :
        WellNumbered (args.entries.foldl mergeEntry (followLeader clock args.term n)) := by
      rw [hmerge, hfollow]
      exact ⟨hnum, h.commit_lt⟩
    apply hmerged.followCommit
    rw [hmerge, hfollow]
    exact lt_of_le_of_lt hlen hmem'

/-- In range the checked step is the step of the model. -/
theorem Checked.step_eq {n : RaftNode} {e : PeerEvent} (h : WellNumbered n)
    (hmem : n.InMemory e) (hrange : n.InRange e) :
    Checked.step n e = e.call.elim (some n) n.step := by
  have hlen : n.log.length < 2 ^ 63 := lt_of_le_of_lt (Nat.le_add_right _ _) hmem
  have hroom : room n + 1 < 2 ^ 64 := lt_of_le_of_lt (Nat.succ_le_succ (room_le n)) (by omega)
  cases e with
  | preVote clock args =>
    rw [step, handlePreVote_eq clock hrange]
    rfl
  | txVoteRequest clock req =>
    rw [step, handleTxVoteRequest_eq clock req hroom h.commit_lt]
    rfl
  | appendEntries clock args =>
    rw [step, handleAppendEntries_eq h.numbered hmem hrange]
    rfl
  | electionTimer =>
    rw [step, preVoteRound, u64Add_eq hrange]
    rfl
  | enterPreVote probedTerm =>
    rw [step, enterPreVote_eq hrange]
    rfl
  | preVoteAlone clock => exact preVoteAlone_eq (by omega) hrange
  | preVoteQuorum clock =>
    rw [step, preVoteQuorum_eq hrange]
    rfl
  | becomeCandidate clock => exact promoteToCandidate_eq clock hrange
  | voteQuorum clock term => exact voteQuorum_eq clock term (by omega)
  | requestVote | preVoteStale | voteRefused => rfl

theorem WellNumbered.step {n : RaftNode} {e : PeerEvent} (h : WellNumbered n)
    (hmem : n.InMemory e) (hrange : n.InRange e) :
    ∃ n', e.call.elim (some n) n.step = some n' ∧ WellNumbered n' := by
  have hlen : n.log.length < 2 ^ 63 := lt_of_le_of_lt (Nat.le_add_right _ _) hmem
  cases e with
  | txVoteRequest clock req => exact ⟨_, rfl, h.handleTxVoteRequest clock req hlen⟩
  | appendEntries clock args => exact ⟨_, rfl, h.handleAppendEntries hmem hrange⟩
  | electionTimer => exact ⟨n, rfl, h⟩
  | requestVote | preVote | enterPreVote | preVoteAlone | preVoteStale | preVoteQuorum
  | becomeCandidate | voteQuorum | voteRefused => exact h.movesRole rfl rfl

/-- From the first start of a node, a run whose steps are in range takes all of
them without an overflow, an underflow or an index outside the log, and leaves
`log[i].index = i + 1` after each. -/
theorem handlers_stay_in_range {raftAddr : String} {peers : List String} {es : List PeerEvent}
    (hrange : Along Checked.step (fun n e => n.InMemory e ∧ n.InRange e)
      (freshNode raftAddr peers) es) :
    ∀ fs, fs <+: es → ∃ n, run Checked.step (freshNode raftAddr peers) fs = some n ∧
      Numbered n.log := by
  rintro fs ⟨rest, rfl⟩
  have hlog : (freshNode raftAddr peers).log = [] := rfl
  have hcommit : (freshNode raftAddr peers).commitIndex = 0 := rfl
  have hstart : WellNumbered (freshNode raftAddr peers) := by
    constructor
    · simp [Numbered, hlog]
    · omega
  have hstep : ∀ {n : RaftNode} {e : PeerEvent}, WellNumbered n → n.InMemory e ∧ n.InRange e →
      ∃ n', Checked.step n e = some n' ∧ WellNumbered n' := by
    rintro n e h ⟨hmem, hrange⟩
    rw [Checked.step_eq h hmem hrange]
    exact h.step hmem hrange
  obtain ⟨n, hrun, hn⟩ := run_total hstep hstart hrange.left
  exact ⟨n, hrun, hn.numbered⟩

/-- A request with one entry. -/
def requestOf (term index : Nat) : AppendEntriesArgs :=
  { term := term, leaderId := "b", prevLogIndex := 0, prevLogTerm := 0,
    entries := [{ term := term, index := index, command := .set "x" "1" }], leaderCommit := 1 }

def candidateOf (term : Nat) : RequestVoteArgs :=
  { term := term, candidateId := "b", lastLogIndex := 1, lastLogTerm := term }

theorem handlers_stay_in_range_election :
    ∃ n, run Checked.step (freshNode "a" ["b", "c"])
        [.appendEntries someClock (requestOf 1 1), .requestVote someClock (candidateOf 2),
          .preVote someClock (candidateOf 3), .electionTimer, .enterPreVote 3,
          .preVoteQuorum someClock] = some n ∧ Numbered n.log :=
  handlers_stay_in_range (by decide +kernel) _ List.prefix_rfl

/-- An entry of index 0, an entry that leaves a gap, and the last term. -/
theorem handlers_leave_range :
    run Checked.step (freshNode "a" ["b", "c"]) [.appendEntries someClock (requestOf 1 0)] = none ∧
      (∃ n, run Checked.step (freshNode "a" ["b", "c"])
        [.appendEntries someClock (requestOf 1 3)] = some n ∧ ¬Numbered n.log) ∧
      run Checked.step (freshNode "a" ["b", "c"])
        [.requestVote someClock (candidateOf (2 ^ 64 - 1)),
          .preVote someClock (candidateOf (2 ^ 64 - 1))] = none ∧
      run Checked.step (freshNode "a" ["b", "c"])
        [.requestVote someClock (candidateOf (2 ^ 64 - 1)), .electionTimer] = none := by
  refine ⟨?_, exists_run_of_any (by decide +kernel), ?_, ?_⟩
  · exact Option.isNone_iff_eq_none.mp (by decide +kernel)
  · exact Option.isNone_iff_eq_none.mp (by decide +kernel)
  · exact Option.isNone_iff_eq_none.mp (by decide +kernel)

end RaftNode

end OxideKv
