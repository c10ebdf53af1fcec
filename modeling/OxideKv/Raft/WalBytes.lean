import Mathlib.Algebra.BigOperators.Group.List.Basic
import Mathlib.Algebra.Order.BigOperators.Group.List
import OxideKv.Lib.ByteReader
import OxideKv.Raft.Storage

/-!
# The bytes of the log file

`Storage` keeps the log file as the list of its records.  Here it is what
`append_wal_log` and `restore_wal_log` see: the bytes of one record after the
other, with nothing between two records and nothing that tells where one ends.

The format of a record is `bincode`'s.  All that the log relies on is that a
record is read back and that one that is cut short is not read, so the file is
modelled for any `RecordCodec`.  The first part is the format itself, which is
one (`bincode`): integers and lengths as little-endian `u64`, the number of an
enum's variant as `u32`, and the fields in the order of their declaration.

The second part is the file over a run of appends and crashes.  An append behind
a torn record can be lost (`append_after_torn_record_lost`).  A snapshot takes
the torn record out of the file, and then it is not (`restore_kept`).
-/

namespace OxideKv

open ByteReader

/-! ## The format -/

def encodeTxOp : TxOp → List UInt8
  | .put key value => writeLE 4 0 ++ (writeString key ++ writeString value)
  | .delete key => writeLE 4 1 ++ writeString key

def decodeTxOp : Reader TxOp := do
  match ← readLE 4 with
  | 0 => return .put (← readString) (← readString)
  | 1 => return .delete (← readString)
  | _ => failure

def encodeTxDecision : TxDecision → List UInt8
  | .commit => writeLE 4 0
  | .abort => writeLE 4 1

def decodeTxDecision : Reader TxDecision := do
  match ← readLE 4 with
  | 0 => return .commit
  | 1 => return .abort
  | _ => failure

def encodeServer (s : ServerId) : List UInt8 := writeString s.nodeId ++ writeString s.addr

def decodeServer : Reader ServerId := do
  return { nodeId := ← readString, addr := ← readString }

def encodeConfiguration : Configuration → List UInt8
  | .simple servers => writeLE 4 0 ++ writeVec encodeServer servers
  | .joint old new => writeLE 4 1 ++ (writeVec encodeServer old ++ writeVec encodeServer new)

def decodeConfiguration : Reader Configuration := do
  match ← readLE 4 with
  | 0 => return .simple (← readVec decodeServer)
  | 1 => return .joint (← readVec decodeServer) (← readVec decodeServer)
  | _ => failure

def encodeCommand : Command → List UInt8
  | .set key value => writeLE 4 0 ++ (writeString key ++ writeString value)
  | .get key => writeLE 4 1 ++ writeString key
  | .delete key => writeLE 4 2 ++ writeString key
  | .compact => writeLE 4 3
  | .abortTx txId => writeLE 4 4 ++ writeString txId
  | .beginTx txId ops => writeLE 4 5 ++ (writeString txId ++ writeVec encodeTxOp ops)
  | .decideTx txId decision => writeLE 4 6 ++ (writeString txId ++ encodeTxDecision decision)
  | .addNode server => writeLE 4 7 ++ encodeServer server
  | .removeNode nodeId => writeLE 4 8 ++ writeString nodeId
  | .installConfiguration config => writeLE 4 9 ++ encodeConfiguration config

def decodeCommand : Reader Command := do
  match ← readLE 4 with
  | 0 => return .set (← readString) (← readString)
  | 1 => return .get (← readString)
  | 2 => return .delete (← readString)
  | 3 => return .compact
  | 4 => return .abortTx (← readString)
  | 5 => return .beginTx (← readString) (← readVec decodeTxOp)
  | 6 => return .decideTx (← readString) (← decodeTxDecision)
  | 7 => return .addNode (← decodeServer)
  | 8 => return .removeNode (← readString)
  | 9 => return .installConfiguration (← decodeConfiguration)
  | _ => failure

/-- `bincode::serialize` of an entry. -/
def encodeEntry (entry : LogEntry) : List UInt8 :=
  writeLE 8 entry.term ++ (writeLE 8 entry.index ++ encodeCommand entry.command)

/-- `bincode::deserialize_from`.  A length that the allocator refuses ends the
process in the source; here it is a failed read like any length beyond the end
of the file. -/
def decodeEntry : Reader LogEntry := do
  return { term := ← readLE 8, index := ← readLE 8, command := ← decodeCommand }

/-! ### Sizes -/

theorem length_writeString (s : String) : (writeString s).length = stringBytes s := by
  rw [writeString, List.length_append, length_writeLE, length_utf8, stringBytes]

theorem length_writeVec {α : Type} {write : α → List UInt8} {size : α → Nat}
    (h : ∀ a, (write a).length = size a) (as : List α) :
    (writeVec write as).length = 8 + (as.map size).sum := by
  rw [writeVec, List.length_append, length_writeLE, List.length_flatMap]
  congr 2
  exact List.map_congr_left fun a _ => h a

theorem length_encodeTxOp (op : TxOp) : (encodeTxOp op).length = txOpBytes op := by
  cases op with
  | put key value =>
    simp only [encodeTxOp, txOpBytes, List.length_append, length_writeLE, length_writeString]
    omega
  | delete key =>
    simp only [encodeTxOp, txOpBytes, List.length_append, length_writeLE, length_writeString]

theorem length_encodeServer (s : ServerId) : (encodeServer s).length = serverBytes s := by
  simp only [encodeServer, serverBytes, List.length_append, length_writeString]

theorem length_encodeConfiguration (config : Configuration) :
    (encodeConfiguration config).length = configurationBytes config := by
  cases config with
  | simple servers =>
    simp only [encodeConfiguration, configurationBytes, List.length_append, length_writeLE,
      length_writeVec length_encodeServer, serversBytes]
  | joint old new =>
    simp only [encodeConfiguration, configurationBytes, List.length_append, length_writeLE,
      length_writeVec length_encodeServer, serversBytes]
    omega

theorem length_encodeTxDecision (decision : TxDecision) :
    (encodeTxDecision decision).length = 4 := by
  cases decision <;> exact length_writeLE 4 _

theorem length_encodeCommand (command : Command) :
    (encodeCommand command).length = commandBytes command := by
  cases command <;> simp only [encodeCommand, commandBytes, List.length_append, length_writeLE,
    length_writeString, length_writeVec length_encodeTxOp, length_encodeTxDecision,
    length_encodeServer, length_encodeConfiguration] <;> omega

/-- The record has the size that `wal_size_bytes` counts. -/
theorem length_encodeEntry (entry : LogEntry) : (encodeEntry entry).length = entryBytes entry := by
  simp only [encodeEntry, entryBytes, List.length_append, length_writeLE, length_encodeCommand]
  omega

/-! ### Round trip -/

theorem readString_of_bytes {s : String} (h : stringBytes s < 2 ^ 64) :
    Reads readString (writeString s) s := by
  rw [stringBytes] at h
  exact readString_reads (by omega)

/-- A vector whose bytes can be counted: so can its elements and the bytes of each. -/
theorem readVec_of_bytes {α : Type} {r : Reader α} {write : α → List UInt8} {size : α → Nat}
    (hpos : ∀ a, 0 < size a) (hr : ∀ a, size a < 2 ^ 64 → Reads r (write a) a) {as : List α}
    (h : 8 + (as.map size).sum < 2 ^ 64) : Reads (readVec r) (writeVec write as) as := by
  have hlen : as.length ≤ (as.map size).sum := by
    have := List.length_le_sum_of_one_le (as.map size) fun n hn => by
      obtain ⟨a, _, rfl⟩ := List.mem_map.mp hn
      exact hpos a
    rwa [List.length_map] at this
  refine readVec_reads (by omega) fun a ha => hr a ?_
  have hle : size a ≤ (as.map size).sum := List.single_le_sum (by simp) _ (List.mem_map_of_mem ha)
  omega

theorem decodeTxOp_reads (op : TxOp) (h : txOpBytes op < 2 ^ 64) :
    Reads decodeTxOp (encodeTxOp op) op := by
  cases op with
  | put key value =>
    rw [txOpBytes] at h
    exact (readLE_reads (by decide)).bind ((readString_of_bytes (by omega)).bind
      ((readString_of_bytes (by omega)).last (Reads.pure _)))
  | delete key =>
    rw [txOpBytes] at h
    exact (readLE_reads (by decide)).bind ((readString_of_bytes (by omega)).last (Reads.pure _))

theorem decodeTxDecision_reads (decision : TxDecision) :
    Reads decodeTxDecision (encodeTxDecision decision) decision := by
  cases decision with
  | commit => exact (readLE_reads (by decide)).last (Reads.pure _)
  | abort => exact (readLE_reads (by decide)).last (Reads.pure _)

theorem decodeServer_reads (s : ServerId) (h : serverBytes s < 2 ^ 64) :
    Reads decodeServer (encodeServer s) s := by
  rw [serverBytes] at h
  exact (readString_of_bytes (by omega)).bind
    ((readString_of_bytes (by omega)).last (Reads.pure _))

theorem readServers_reads (servers : List ServerId) (h : serversBytes servers < 2 ^ 64) :
    Reads (readVec decodeServer) (writeVec encodeServer servers) servers := by
  refine readVec_of_bytes (fun s => ?_) decodeServer_reads h
  rw [serverBytes, stringBytes]
  omega

theorem decodeConfiguration_reads (config : Configuration)
    (h : configurationBytes config < 2 ^ 64) :
    Reads decodeConfiguration (encodeConfiguration config) config := by
  cases config with
  | simple servers =>
    rw [configurationBytes] at h
    exact (readLE_reads (by decide)).bind
      ((readServers_reads servers (by omega)).last (Reads.pure _))
  | joint old new =>
    rw [configurationBytes] at h
    exact (readLE_reads (by decide)).bind ((readServers_reads old (by omega)).bind
      ((readServers_reads new (by omega)).last (Reads.pure _)))

theorem decodeCommand_reads (command : Command) (h : commandBytes command < 2 ^ 64) :
    Reads decodeCommand (encodeCommand command) command := by
  cases command with
  | set key value =>
    rw [commandBytes] at h
    exact (readLE_reads (by decide)).bind ((readString_of_bytes (by omega)).bind
      ((readString_of_bytes (by omega)).last (Reads.pure _)))
  | compact => exact (readLE_reads (by decide)).last (Reads.pure _)
  | beginTx txId ops =>
    rw [commandBytes] at h
    have hpos : ∀ op : TxOp, 0 < txOpBytes op := fun op => by cases op <;> simp [txOpBytes]
    exact (readLE_reads (by decide)).bind ((readString_of_bytes (by omega)).bind
      ((readVec_of_bytes hpos decodeTxOp_reads (by omega)).last (Reads.pure _)))
  | decideTx txId decision =>
    rw [commandBytes] at h
    exact (readLE_reads (by decide)).bind ((readString_of_bytes (by omega)).bind
      ((decodeTxDecision_reads decision).last (Reads.pure _)))
  | addNode server =>
    rw [commandBytes] at h
    exact (readLE_reads (by decide)).bind
      ((decodeServer_reads server (by omega)).last (Reads.pure _))
  | installConfiguration config =>
    rw [commandBytes] at h
    exact (readLE_reads (by decide)).bind
      ((decodeConfiguration_reads config (by omega)).last (Reads.pure _))
  | get _ | delete _ | abortTx _ | removeNode _ =>
    rw [commandBytes] at h
    exact (readLE_reads (by decide)).bind
      ((readString_of_bytes (by omega)).last (Reads.pure _))

/-- The fields fit `u64`, and the record fits the address space. -/
def LogEntry.Representable (entry : LogEntry) : Prop :=
  entry.term < 2 ^ 64 ∧ entry.index < 2 ^ 64 ∧ entryBytes entry < 2 ^ 64

instance (entry : LogEntry) : Decidable entry.Representable :=
  inferInstanceAs (Decidable (_ ∧ _ ∧ _))

theorem decodeEntry_reads {entry : LogEntry} (h : entry.Representable) :
    Reads decodeEntry (encodeEntry entry) entry := by
  obtain ⟨hterm, hindex, hbytes⟩ := h
  rw [entryBytes] at hbytes
  exact (readLE_reads hterm).bind ((readLE_reads hindex).bind
    ((decodeCommand_reads entry.command (by omega)).last (Reads.pure _)))

theorem decodeTxOp_streaming : Streaming decodeTxOp := by
  refine (readLE_streaming 4).bind fun tag => ?_
  split
  · exact readString_streaming.bind fun _ => readString_streaming.bind fun _ => Streaming.pure _
  · exact readString_streaming.bind fun _ => Streaming.pure _
  · exact Streaming.failure

theorem decodeTxDecision_streaming : Streaming decodeTxDecision := by
  refine (readLE_streaming 4).bind fun tag => ?_
  split
  · exact Streaming.pure _
  · exact Streaming.pure _
  · exact Streaming.failure

theorem decodeServer_streaming : Streaming decodeServer :=
  readString_streaming.bind fun _ => readString_streaming.bind fun _ => Streaming.pure _

theorem decodeConfiguration_streaming : Streaming decodeConfiguration := by
  have hservers := readVec_streaming decodeServer_streaming
  refine (readLE_streaming 4).bind fun tag => ?_
  split
  · exact hservers.bind fun _ => Streaming.pure _
  · exact hservers.bind fun _ => hservers.bind fun _ => Streaming.pure _
  · exact Streaming.failure

theorem decodeCommand_streaming : Streaming decodeCommand := by
  have hops := readVec_streaming decodeTxOp_streaming
  refine (readLE_streaming 4).bind fun tag => ?_
  split
  · exact readString_streaming.bind fun _ => readString_streaming.bind fun _ => Streaming.pure _
  · exact readString_streaming.bind fun _ => Streaming.pure _
  · exact readString_streaming.bind fun _ => Streaming.pure _
  · exact Streaming.pure _
  · exact readString_streaming.bind fun _ => Streaming.pure _
  · exact readString_streaming.bind fun _ => hops.bind fun _ => Streaming.pure _
  · exact readString_streaming.bind fun _ =>
      decodeTxDecision_streaming.bind fun _ => Streaming.pure _
  · exact decodeServer_streaming.bind fun _ => Streaming.pure _
  · exact readString_streaming.bind fun _ => Streaming.pure _
  · exact decodeConfiguration_streaming.bind fun _ => Streaming.pure _
  · exact Streaming.failure

theorem decodeEntry_streaming : Streaming decodeEntry :=
  (readLE_streaming 8).bind fun _ => (readLE_streaming 8).bind fun _ =>
    decodeCommand_streaming.bind fun _ => Streaming.pure _

theorem encodeEntry_ne_nil (entry : LogEntry) : encodeEntry entry ≠ [] := by
  apply List.ne_nil_of_length_pos
  rw [length_encodeEntry, entryBytes]
  omega

def bincode : RecordCodec LogEntry.Representable where
  write := encodeEntry
  read := decodeEntry
  write_ne_nil := encodeEntry_ne_nil
  read_back := decodeEntry_reads
  cut_short := fun h hk => (decodeEntry_reads h).cut_short decodeEntry_streaming hk

/-! ## The file -/

namespace WalFile

variable (codec : RecordCodec LogEntry.Representable)

/-- `append_wal_log`: the record goes to the end of the file, whatever is there. -/
def appendWalLog (entry : LogEntry) (file : List UInt8) : List UInt8 :=
  file ++ codec.write entry

/-- `restore_wal_log`: decode until the first failure. -/
def restoreWalLog (file : List UInt8) : List LogEntry := readAll codec.read file

/-- `rewrite_wal_after_snapshot`: the new file holds what `restore_wal_log` reads
above `snapshotIndex`. -/
def rewriteWalAfterSnapshot (snapshotIndex : Nat) (file : List UInt8) : List UInt8 :=
  ((restoreWalLog codec file).filter (fun e => snapshotIndex < e.index)).flatMap codec.write

/-! ### Appends and crashes -/

/-- An entry whose fields have the types of the source. -/
abbrev WalEntry := {entry : LogEntry // entry.Representable}

/-- What happens to the file between two reads of it. -/
inductive WalStep where
  /-- `append_wal_log` returns `Ok`. -/
  | append (entry : WalEntry)
  /-- The process ends inside `append_wal_log`: `written` bytes of the record are
  in the file, and not all.  The node starts again with the file as it is. -/
  | crash (entry : WalEntry) (written : Fin (codec.write entry.1).length)

variable {codec}

def WalStep.run (file : List UInt8) : WalStep codec → List UInt8
  | .append entry => appendWalLog codec entry.1 file
  | .crash entry written => file ++ (codec.write entry.1).take written

/-- The file after the steps, from a directory without one. -/
def walFile (steps : List (WalStep codec)) : List UInt8 := steps.foldl WalStep.run []

def WalStep.acked? : WalStep codec → Option LogEntry
  | .append entry => some entry.1
  | .crash _ _ => none

/-- The entries whose `append_wal_log` has returned `Ok`. -/
def acked (steps : List (WalStep codec)) : List LogEntry := steps.filterMap WalStep.acked?

/-- The step leaves no part of a record behind. -/
def WalStep.Clean : WalStep codec → Prop
  | .append _ => True
  | .crash _ written => written.1 = 0

instance : DecidablePred (WalStep.Clean : WalStep codec → Prop)
  | .append _ => inferInstanceAs (Decidable True)
  | .crash _ written => inferInstanceAs (Decidable (written.1 = 0))

/-- No append follows a crash that left part of a record. -/
def AppendsOnWhole (steps : List (WalStep codec)) : Prop :=
  steps.Pairwise fun earlier later => later.acked?.isSome → earlier.Clean

instance (steps : List (WalStep codec)) : Decidable (AppendsOnWhole steps) :=
  inferInstanceAs (Decidable (List.Pairwise _ _))

theorem acked_representable {steps : List (WalStep codec)} {e : LogEntry} (he : e ∈ acked steps) :
    e.Representable := by
  obtain ⟨step, _, hstep⟩ := List.mem_filterMap.mp he
  cases step with
  | append entry =>
    cases hstep
    exact entry.2
  | crash => cases hstep

@[simp] theorem walFile_concat (steps : List (WalStep codec)) (step : WalStep codec) :
    walFile (steps ++ [step]) = step.run (walFile steps) := by
  rw [walFile, List.foldl_append]
  rfl

@[simp] theorem acked_concat (steps : List (WalStep codec)) (step : WalStep codec) :
    acked (steps ++ [step]) = acked steps ++ step.acked?.toList := by
  rw [acked, List.filterMap_append]
  cases step <;> rfl

/-- Steps that leave nothing behind write whole records only. -/
theorem walFile_of_clean {steps : List (WalStep codec)} (h : ∀ step ∈ steps, step.Clean) :
    walFile steps = (acked steps).flatMap codec.write := by
  induction steps using List.reverseRecOn with
  | nil => rfl
  | append_singleton steps step ih =>
    have hfile := ih fun s hs => h s (List.mem_append_left _ hs)
    have hclean := h step (List.mem_append_right _ (List.mem_singleton_self _))
    rw [walFile_concat, acked_concat, List.flatMap_append, ← hfile]
    cases step with
    | append entry => simp [WalStep.run, WalStep.acked?, appendWalLog]
    | crash entry written =>
      rw [WalStep.Clean] at hclean
      simp [WalStep.run, WalStep.acked?, hclean]

/-- The invariant of a run: whole records, then what crashes left. -/
theorem walFile_eq_records {steps : List (WalStep codec)} (h : AppendsOnWhole steps) :
    ∃ tail, walFile steps = (acked steps).flatMap codec.write ++ tail := by
  induction steps using List.reverseRecOn with
  | nil => exact ⟨[], rfl⟩
  | append_singleton steps step ih =>
    obtain ⟨hsteps, -, hbefore⟩ := List.pairwise_append.mp h
    rw [walFile_concat, acked_concat]
    cases step with
    | append entry =>
      -- every crash so far left nothing, so the file ends with a whole record
      have hclean : ∀ step ∈ steps, step.Clean := fun step hs =>
        hbefore step hs _ (List.mem_singleton_self _) rfl
      refine ⟨[], ?_⟩
      rw [walFile_of_clean hclean]
      simp [WalStep.run, WalStep.acked?, appendWalLog]
    | crash entry written =>
      obtain ⟨tail, htail⟩ := ih hsteps
      refine ⟨tail ++ (codec.write entry.1).take written, ?_⟩
      rw [htail]
      simp [WalStep.run, WalStep.acked?]

/-- While no append follows a crash that left part of a record, `restore_wal_log`
returns every entry that was acknowledged, in order, at every point of the run. -/
theorem restore_every_acked {steps : List (WalStep codec)} (h : AppendsOnWhole steps) :
    ∀ done, done <+: steps → acked done <+: restoreWalLog codec (walFile done) := by
  intro done hdone
  obtain ⟨tail, htail⟩ := walFile_eq_records (List.Pairwise.sublist hdone.sublist h)
  rw [htail]
  exact codec.prefix_readAll (fun e he => acked_representable he) tail

def compactAt (term index : Nat) : LogEntry := { term, index, command := .compact }

/-- A crash before the first byte, then one in the middle of the last record. -/
theorem restore_every_acked_last_torn :
    let steps : List (WalStep bincode) :=
      [.append ⟨compactAt 1 1, by decide⟩, .crash ⟨compactAt 1 2, by decide⟩ ⟨0, by decide⟩,
        .append ⟨compactAt 2 2, by decide⟩, .crash ⟨compactAt 2 3, by decide⟩ ⟨17, by decide⟩]
    acked steps = [compactAt 1 1, compactAt 2 2] ∧
      acked steps <+: restoreWalLog bincode (walFile steps) := by
  intro steps
  exact ⟨rfl, restore_every_acked (by decide) steps (List.prefix_refl _)⟩

/-- Four bytes of an interrupted append stay in the file.  The next append
returns `Ok`, and `restore_wal_log` reads the end of the torn record out of it: a
`Set` whose key does not end before the file does. -/
theorem append_after_torn_record_lost :
    let steps : List (WalStep bincode) :=
      [.append ⟨compactAt 1 1, by decide⟩, .crash ⟨compactAt 1 2, by decide⟩ ⟨4, by decide⟩,
        .append ⟨compactAt 2 2, by decide⟩]
    acked steps = [compactAt 1 1, compactAt 2 2] ∧
      ¬ (acked steps).Sublist (restoreWalLog bincode (walFile steps)) := by
  decide +kernel

/-! ### Snapshots -/

variable (codec) in
/-- What happens to the file of a node that writes snapshots. -/
inductive WalEvent where
  | wal (step : WalStep codec)
  /-- `rewrite_wal_after_snapshot` returns `Ok`. -/
  | rewrite (snapshotIndex : Nat)

def WalEvent.run (file : List UInt8) : WalEvent codec → List UInt8
  | .wal step => step.run file
  | .rewrite snapshotIndex => rewriteWalAfterSnapshot codec snapshotIndex file

def fileAfter (events : List (WalEvent codec)) : List UInt8 := events.foldl WalEvent.run []

def WalEvent.keep (entries : List LogEntry) : WalEvent codec → List LogEntry
  | .wal step => entries ++ step.acked?.toList
  | .rewrite snapshotIndex => entries.filter fun e => snapshotIndex < e.index

/-- The entries whose `append_wal_log` has returned `Ok`, without those that a
snapshot has covered since. -/
def kept (events : List (WalEvent codec)) : List LogEntry := events.foldl WalEvent.keep []

/-- A snapshot rewrites a file that ends in part of a record before anything is
written behind it.  `torn` says that the file ends so now. -/
def RewritesTorn : Bool → List (WalEvent codec) → Prop
  | _, [] => True
  | torn, .wal (.append _) :: events => torn = false ∧ RewritesTorn false events
  | torn, .wal (.crash _ written) :: events =>
      (torn = true → written.1 = 0) ∧ RewritesTorn (torn || written.1 ≠ 0) events
  | _, .rewrite _ :: events => RewritesTorn false events

instance decidableRewritesTorn : (torn : Bool) → (events : List (WalEvent codec)) →
    Decidable (RewritesTorn torn events)
  | _, [] => .isTrue trivial
  | torn, .wal (.append _) :: events =>
      have := decidableRewritesTorn false events
      inferInstanceAs (Decidable (torn = false ∧ RewritesTorn false events))
  | torn, .wal (.crash _ written) :: events =>
      have := decidableRewritesTorn (torn || written.1 ≠ 0) events
      inferInstanceAs (Decidable ((torn = true → written.1 = 0) ∧
        RewritesTorn (torn || written.1 ≠ 0) events))
  | _, .rewrite _ :: events => decidableRewritesTorn false events

theorem RewritesTorn.of_append {done rest : List (WalEvent codec)} :
    ∀ {torn : Bool}, RewritesTorn torn (done ++ rest) → RewritesTorn torn done := by
  induction done with
  | nil => exact fun _ => trivial
  | cons event done ih =>
    intro torn h
    rcases event with (entry | ⟨entry, written⟩) | snapshotIndex
    · exact ⟨h.1, ih h.2⟩
    · exact ⟨h.1, ih h.2⟩
    · exact @ih false h

variable (codec) in
/-- The file is whole records, and at the end part of one more if it is torn. -/
structure Holds (torn : Bool) (file : List UInt8) (entries : List LogEntry) : Prop where
  valid : ∀ e ∈ entries, e.Representable
  file_eq : file = entries.flatMap codec.write ∨ torn = true ∧
    ∃ (e : WalEntry) (written : Fin (codec.write e.1).length),
      file = entries.flatMap codec.write ++ (codec.write e.1).take written

section Holds

variable {torn : Bool} {file : List UInt8} {entries : List LogEntry}

theorem Holds.whole (h : Holds codec false file entries) :
    file = entries.flatMap codec.write := by
  rcases h.file_eq with heq | ⟨htorn, -⟩
  · exact heq
  · cases htorn

theorem Holds.restore (h : Holds codec torn file entries) :
    restoreWalLog codec file = entries := by
  rcases h.file_eq with rfl | ⟨-, e, written, rfl⟩
  · exact codec.readAll_records h.valid
  · exact codec.readAll_torn h.valid e.1 e.2 written.2

theorem Holds.append (h : Holds codec false file entries) (entry : WalEntry) :
    Holds codec false (appendWalLog codec entry.1 file) (entries ++ [entry.1]) where
  valid := by
    intro e he
    rcases List.mem_append.mp he with he | he
    · exact h.valid e he
    · exact List.mem_singleton.mp he ▸ entry.2
  file_eq := by
    left
    rw [appendWalLog, h.whole, List.flatMap_append, List.flatMap_singleton]

theorem Holds.crash (h : Holds codec torn file entries) (entry : WalEntry)
    (written : Fin (codec.write entry.1).length) (hclean : torn = true → written.1 = 0) :
    Holds codec (torn || written.1 ≠ 0)
      (file ++ (codec.write entry.1).take written) entries := by
  refine ⟨h.valid, ?_⟩
  cases torn with
  | true =>
    rw [hclean rfl, List.take_zero, List.append_nil]
    exact h.file_eq
  | false =>
    rw [h.whole]
    by_cases hnone : written.1 = 0
    · rw [hnone, List.take_zero, List.append_nil]
      exact Or.inl rfl
    · exact Or.inr ⟨by simp [hnone], entry, written, rfl⟩

theorem Holds.rewrite (h : Holds codec torn file entries) (snapshotIndex : Nat) :
    Holds codec false (rewriteWalAfterSnapshot codec snapshotIndex file)
      (entries.filter fun e => snapshotIndex < e.index) where
  valid := fun e he => h.valid e (List.mem_of_mem_filter he)
  file_eq := by
    left
    rw [rewriteWalAfterSnapshot, h.restore]

theorem Holds.run : ∀ {events : List (WalEvent codec)} {torn : Bool} {file : List UInt8}
    {entries : List LogEntry}, Holds codec torn file entries →
      RewritesTorn torn events →
      restoreWalLog codec (events.foldl WalEvent.run file) = events.foldl WalEvent.keep entries
  | [], _, _, _, h, _ => h.restore
  | .wal (.append entry) :: _, torn, _, _, h, hrewrites => by
    obtain ⟨rfl, hrest⟩ := hrewrites
    exact (h.append entry).run hrest
  | .wal (.crash entry written) :: events, torn, file, entries, h, hrewrites => by
    have hrun := (h.crash entry written hrewrites.1).run hrewrites.2
    rw [List.foldl_cons, List.foldl_cons]
    rw [← List.append_nil entries] at hrun
    exact hrun
  | .rewrite snapshotIndex :: _, _, _, _, h, hrewrites => (h.rewrite snapshotIndex).run hrewrites

end Holds

/-- As long as a snapshot takes the part of a record that a crash has left out of
the file before the next append, `restore_wal_log` returns the entries that were
acknowledged and are not covered by a snapshot, and nothing else, at every point
of the run. -/
theorem restore_kept {events : List (WalEvent codec)} (h : RewritesTorn false events) :
    ∀ done, done <+: events → restoreWalLog codec (fileAfter done) = kept done := by
  rintro done ⟨rest, rfl⟩
  exact Holds.run ⟨nofun, Or.inl rfl⟩ h.of_append

/-- The run of `append_after_torn_record_lost` with a snapshot in between. -/
theorem restore_kept_after_snapshot :
    let events : List (WalEvent bincode) :=
      [.wal (.append ⟨compactAt 1 1, by decide⟩), .wal (.append ⟨compactAt 1 2, by decide⟩),
        .wal (.crash ⟨compactAt 1 3, by decide⟩ ⟨4, by decide⟩), .rewrite 1,
        .wal (.append ⟨compactAt 2 3, by decide⟩)]
    restoreWalLog bincode (fileAfter events) = [compactAt 1 2, compactAt 2 3] := by
  intro events
  exact restore_kept (by decide) events (List.prefix_refl _)

end WalFile

end OxideKv
