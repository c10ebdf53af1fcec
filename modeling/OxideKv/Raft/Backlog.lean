import OxideKv.Raft.LogMatching
import OxideKv.Raft.Prost
import OxideKv.Raft.Transport

/-!
# A message that carries a backlog

`sync_logs` sends a follower every entry from its `next_index` on, in one
message.  `write_envelope` refuses a payload above `MAX_FRAME_BYTES`.  What lies
between them is `encode_to_vec`, of which only the sizes count here
(`MessageSizes`).

Every entry adds the bytes of its own field, so the backlog goes through as long
as the sum of these stays under the limit (`backlog_sent_iff`).  Nothing bounds
that sum: two entries, either of which could travel alone, can be too much
together.
-/

namespace OxideKv

open ByteReader Proto3 Transport

/-! ## The size of the message -/

/-- The key and the length of the message take five bytes where the limit is
reached. -/
theorem Prost.MessageSizes.payload_le_iff {d : Prost} (sizes : d.MessageSizes)
    (args : AppendEntriesArgs) :
    (d.payload (.appendEntries args)).length ≤ maxFrameBytes ↔
      sizes.headerSize args + (args.entries.map sizes.entrySize).sum ≤ maxFrameBytes - 5 := by
  have hmax : maxFrameBytes = 16777216 := rfl
  rw [sizes.length_payload, hmax]
  generalize sizes.headerSize args + (args.entries.map sizes.entrySize).sum = size
  constructor
  · intro hfits
    by_contra hlarge
    have hfour := (length_varint_le_iff (k := 2) (n := size) (by omega)).mp (by omega)
    omega
  · intro hsize
    have hfour := (length_varint_le_iff (k := 3) (n := size) (by omega)).mpr (by omega)
    omega

namespace RaftNode

/-- `prev_term` of `sync_logs`. -/
def prevTerm (prevIdx : Nat) (n : RaftNode) : Nat :=
  if prevIdx = 0 then 0 else ((n.log[prevIdx - 1]?).map LogEntry.term).getD 0

/-- Where the entries that the peer lacks start. -/
def prevIdx (peer : String) (n : RaftNode) : Nat := usizePred ((n.nextIndex peer).getD 1)

/-- The message for a peer that lacks nothing, from the same place of the log. -/
def heartbeatFor (peer : String) (n : RaftNode) : AppendEntriesArgs :=
  { term := n.currentTerm
    leaderId := n.nodeId
    prevLogIndex := n.prevIdx peer
    prevLogTerm := n.prevTerm (n.prevIdx peer)
    entries := []
    leaderCommit := n.commitIndex }

theorem syncPeer_backlog {n : RaftNode} {peer : String} {args : AppendEntriesArgs}
    (h : n.syncPeer n.syncRound peer = some args) :
    args = { n.heartbeatFor peer with entries := n.log.drop (n.prevIdx peer) } := by
  unfold syncPeer at h
  dsimp only at h
  by_cases hnext : (n.nextIndex peer).getD 1 ≤ n.syncRound.logLen
  · rw [if_pos hnext] at h
    by_cases hslice : usizePred ((n.nextIndex peer).getD 1) ≤ n.log.length
    · rw [if_pos hslice] at h
      exact (Option.some.inj h).symm
    · rw [if_neg hslice] at h
      cases h
  · rw [if_neg hnext] at h
    have hlen : n.log.length < (n.nextIndex peer).getD 1 := Nat.lt_of_not_le hnext
    have hnone : n.log.drop (n.prevIdx peer) = [] := by
      apply List.drop_eq_nil_of_le
      rw [prevIdx, usizePred, if_neg (by omega)]
      omega
    rw [hnone]
    exact (Option.some.inj h).symm

/-- The frame with the follower's backlog is written, and then read on the
other side, exactly when the entries are small enough in sum. -/
theorem backlog_sent_iff {d : Prost} (sizes : d.MessageSizes) {n : RaftNode} {peer : String}
    {args : AppendEntriesArgs} (hsync : n.syncPeer n.syncRound peer = some args) :
    (∃ wire, writeEnvelope .raft (d.payload (.appendEntries args)) [] = (.ok (), wire) ∧
        ∀ ending, ∀ reader ∈ [readEnvelope ending, readDispatched ending], ∀ rest,
          accepts reader (wire ++ rest) =
            some ((.raft, d.payload (.appendEntries args)), rest)) ↔
      sizes.headerSize (n.heartbeatFor peer) +
          ((n.log.drop (n.prevIdx peer)).map sizes.entrySize).sum ≤ maxFrameBytes - 5 := by
  have hargs := syncPeer_backlog hsync
  have hheader : sizes.headerSize args = sizes.headerSize (n.heartbeatFor peer) := by
    rw [hargs]
    exact sizes.headerSize_entries (n.heartbeatFor peer) _
  have hentries : args.entries = n.log.drop (n.prevIdx peer) := by rw [hargs]
  rw [← hheader, ← hentries, ← sizes.payload_le_iff]
  constructor
  · rintro ⟨wire, hwire, -⟩
    exact writeEnvelope_ok_size hwire
  · intro hsize
    refine ⟨_, writeEnvelope_ok (f := (.raft, _)) hsize [], ?_⟩
    intro ending reader hreader rest
    rw [accepts_frameReader hreader]
    exact frameReader_reads (f := (.raft, _)) hsize rest

end RaftNode

/-! ## Two large values -/

theorem AppendEntriesArgs.headerSize_le (args : AppendEntriesArgs) :
    args.headerSize ≤ args.leaderId.utf8ByteSize + 55 := by
  have hterm := length_uint64Field_le 1 (by omega) args.term
  have hleader := length_stringField_le 2 (by omega) args.leaderId
  have hprev := length_uint64Field_le 3 (by omega) args.prevLogIndex
  have hprevTerm := length_uint64Field_le 4 (by omega) args.prevLogTerm
  have hcommit := length_uint64Field_le 6 (by omega) args.leaderCommit
  rw [headerSize]
  omega

theorem LogEntry.encode_set (term index : Nat) (key value : String) :
    (Pb.LogEntry.ofDomain { term := term, index := index, command := .set key value }).encodeToVec =
      uint64Field 1 term ++ uint64Field 2 index ++
        lenField 3 (lenField 1 (stringField 1 key ++ stringField 2 value)) := rfl

theorem LogEntry.wireSize_set_le (term index : Nat) (key value : String) :
    LogEntry.wireSize { term := term, index := index, command := .set key value } ≤
      key.utf8ByteSize + value.utf8ByteSize + 77 := by
  have hentry := length_lenField_le 5 (by omega)
    (uint64Field 1 term ++ uint64Field 2 index ++
      lenField 3 (lenField 1 (stringField 1 key ++ stringField 2 value)))
  have hcommand := length_lenField_le 3 (by omega)
    (lenField 1 (stringField 1 key ++ stringField 2 value))
  have hset := length_lenField_le 1 (by omega) (stringField 1 key ++ stringField 2 value)
  have hterm := length_uint64Field_le 1 (by omega) term
  have hindex := length_uint64Field_le 2 (by omega) index
  have hkey := length_stringField_le 1 (by omega) key
  have hvalue := length_stringField_le 2 (by omega) value
  rw [wireSize, encode_set]
  simp only [List.length_append] at hentry hset ⊢
  omega

theorem LogEntry.le_wireSize_set (term index : Nat) (key value : String) :
    value.utf8ByteSize ≤
      LogEntry.wireSize { term := term, index := index, command := .set key value } := by
  have hentry := le_length_lenField 5
    (uint64Field 1 term ++ uint64Field 2 index ++
      lenField 3 (lenField 1 (stringField 1 key ++ stringField 2 value)))
  have hcommand := le_length_lenField 3 (lenField 1 (stringField 1 key ++ stringField 2 value))
  have hset := le_length_lenField 1 (stringField 1 key ++ stringField 2 value)
  have hvalue := le_length_stringField 2 value
  rw [wireSize, encode_set]
  simp only [List.length_append] at hentry hset ⊢
  omega

namespace RaftNode

/-- A leader whose follower lacks two entries. -/
def backloggedLeader (value : String) : RaftNode :=
  { freshNode "a" ["b"] with
    state := .leader
    currentTerm := 1
    log :=
      [{ term := 1, index := 1, command := .set "x" value },
        { term := 1, index := 2, command := .set "y" value }] }

/-- `encode_to_vec` in the wire format. -/
abbrev wireFormat : Prost := .proto3 [] [] []

abbrev wireSizes : wireFormat.MessageSizes := Prost.proto3Sizes [] [] []

theorem backlog_sent_small :
    ∃ wire, writeEnvelope .raft
        (wireFormat.payload (.appendEntries
          { (backloggedLeader "1").heartbeatFor "b" with
            entries := (backloggedLeader "1").log })) [] = (.ok (), wire) := by
  have hsync : (backloggedLeader "1").syncPeer (backloggedLeader "1").syncRound "b" =
      some { (backloggedLeader "1").heartbeatFor "b" with
        entries := (backloggedLeader "1").log } := by decide
  obtain ⟨wire, hwire, -⟩ := (backlog_sent_iff wireSizes hsync).mpr (by decide +kernel)
  exact ⟨wire, hwire⟩

/-- Either of two values may be sent alone and both be too much. -/
theorem backlog_of_two {value : String} (hlow : 8388608 ≤ value.utf8ByteSize)
    (hhigh : value.utf8ByteSize ≤ 16777000) :
    ∃ args, (backloggedLeader value).syncPeer (backloggedLeader value).syncRound "b" = some args ∧
      (∀ entry ∈ args.entries, ∃ wire, writeEnvelope .raft
        (wireFormat.payload (.appendEntries { args with entries := [entry] })) [] =
          (.ok (), wire)) ∧
      ∃ e, writeEnvelope .raft (wireFormat.payload (.appendEntries args)) [] = (.error e, []) ∧
        e.kind = .invalidInput := by
  have hmax : maxFrameBytes = 16777216 := rfl
  have hx : "x".utf8ByteSize = 1 := rfl
  have hy : "y".utf8ByteSize = 1 := rfl
  have hleader : "a".utf8ByteSize = 1 := rfl
  refine ⟨{ (backloggedLeader value).heartbeatFor "b" with
    entries := (backloggedLeader value).log }, rfl, ?_, ?_⟩
  · intro entry hentry
    have hheader : AppendEntriesArgs.headerSize
        { (backloggedLeader value).heartbeatFor "b" with entries := [entry] } ≤ 1 + 55 :=
      AppendEntriesArgs.headerSize_le _
    have hsize : entry.wireSize ≤ 1 + value.utf8ByteSize + 77 := by
      rcases List.mem_pair.mp hentry with rfl | rfl
      · exact LogEntry.wireSize_set_le 1 1 "x" value
      · exact LogEntry.wireSize_set_le 1 2 "y" value
    have hsum : AppendEntriesArgs.headerSize
        { (backloggedLeader value).heartbeatFor "b" with entries := [entry] } +
          ([entry].map LogEntry.wireSize).sum ≤ maxFrameBytes - 5 := by
      rw [List.map_singleton, List.sum_singleton]
      omega
    exact ⟨_, writeEnvelope_ok (f := (.raft, _)) ((wireSizes.payload_le_iff _).mpr hsum) []⟩
  · apply writeEnvelope_refused
    by_contra hfits
    have hfirst := LogEntry.le_wireSize_set 1 1 "x" value
    have hsecond := LogEntry.le_wireSize_set 1 2 "y" value
    have hsum := (wireSizes.payload_le_iff _).mp (Nat.le_of_not_lt hfits)
    change _ + (LogEntry.wireSize _ + (LogEntry.wireSize _ + 0)) ≤ _ at hsum
    omega

/-- Nine mebibytes. -/
def largeValue : String := String.ofList (List.replicate (9 * 1024 * 1024) 'x')

theorem utf8ByteSize_replicate (k : Nat) :
    (String.ofList (List.replicate k 'x')).utf8ByteSize = k := by
  induction k with
  | zero => rfl
  | succ k ih =>
    rw [List.replicate_succ, String.ofList_cons, String.utf8ByteSize_append, ih]
    show 1 + k = k + 1
    omega

theorem utf8ByteSize_largeValue : largeValue.utf8ByteSize = 9437184 :=
  utf8ByteSize_replicate (9 * 1024 * 1024)

theorem backlog_refused :
    ∃ args, (backloggedLeader largeValue).syncPeer (backloggedLeader largeValue).syncRound "b" =
        some args ∧
      (∀ entry ∈ args.entries, ∃ wire, writeEnvelope .raft
        (wireFormat.payload (.appendEntries { args with entries := [entry] })) [] =
          (.ok (), wire)) ∧
      ∃ e, writeEnvelope .raft (wireFormat.payload (.appendEntries args)) [] = (.error e, []) ∧
        e.kind = .invalidInput := by
  apply backlog_of_two
  · rw [utf8ByteSize_largeValue]
    omega
  · rw [utf8ByteSize_largeValue]
    omega

end RaftNode

end OxideKv
