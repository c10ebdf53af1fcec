import Mathlib.Algebra.Order.Ring.Nat
import Mathlib.Data.List.Basic
import Mathlib.Tactic.Common

/-!
# Records in a stream of bytes

A decoder takes bytes off the front of a stream and fails where the stream ends
too early.  `Reader α` is such a decoder.  Two facts say all that a file of
records needs of it.  `Reads r bytes a` is the round trip: in front of any rest,
`bytes` is read as `a`.  `Streaming r` says that the decoder does not see the
bytes it has not taken, so that more of them change nothing.  Together they
make a record that is cut short undecodable (`Reads.cut_short`).

`readAll` is the loop that decodes records until the first failure.  The rules
follow the decoders: integers, strings and vectors first, `pure` and `bind` for
what is put together from them, then the loop.

A `RecordCodec` is a format of records with what the loop needs of it: a record
is read back, and one that is cut short is not read.
-/

namespace ByteReader

/-- A decoder: the value and the bytes left, `none` for an error. -/
abbrev Reader (α : Type) := StateT (List UInt8) Option α

variable {α β : Type}

/-- `bytes` is read as `a`, whatever follows. -/
def Reads (r : Reader α) (bytes : List UInt8) (a : α) : Prop :=
  ∀ rest, r (bytes ++ rest) = some (a, rest)

/-- What has been read stays so when more bytes follow. -/
def Streaming (r : Reader α) : Prop :=
  ∀ bytes a rest later, r bytes = some (a, rest) → r (bytes ++ later) = some (a, rest ++ later)

/-- A record that is cut short is not read. -/
theorem Reads.cut_short {r : Reader α} (hs : Streaming r) {bytes : List UInt8} {a : α}
    (hr : Reads r bytes a) {k : Nat} (hk : k < bytes.length) : r (bytes.take k) = none := by
  rcases hread : r (bytes.take k) with _ | ⟨b, rest⟩
  · rfl
  · exfalso
    have hwhole := hs _ _ _ (bytes.drop k) hread
    rw [List.take_append_drop] at hwhole
    have hall := hr []
    rw [List.append_nil, hwhole, Option.some.injEq, Prod.mk.injEq] at hall
    have hlen := congrArg List.length hall.2
    simp only [List.length_append, List.length_drop, List.length_nil] at hlen
    omega

/-! ## Rules -/

theorem bind_eq_some {r : Reader α} {f : α → Reader β} {bytes rest : List UInt8} {b : β} :
    (r >>= f) bytes = some (b, rest) ↔
      ∃ a mid, r bytes = some (a, mid) ∧ f a mid = some (b, rest) := by
  show (r bytes).bind (fun p => f p.1 p.2) = some (b, rest) ↔ _
  rw [Option.bind_eq_some_iff]
  simp only [Prod.exists]

theorem Reads.pure (a : α) : Reads (pure a) [] a := fun _ => rfl

theorem Reads.bind {r : Reader α} {f : α → Reader β} {bytes later : List UInt8} {a : α} {b : β}
    (hr : Reads r bytes a) (hf : Reads (f a) later b) : Reads (r >>= f) (bytes ++ later) b := by
  intro rest
  rw [List.append_assoc]
  exact bind_eq_some.mpr ⟨a, later ++ rest, hr _, hf rest⟩

/-- The last part of a record, after which nothing more is taken. -/
theorem Reads.last {r : Reader α} {f : α → Reader β} {bytes : List UInt8} {a : α} {b : β}
    (hr : Reads r bytes a) (hf : Reads (f a) [] b) : Reads (r >>= f) bytes b := by
  have h := Reads.bind hr hf
  rwa [List.append_nil] at h

theorem Streaming.pure (a : α) : Streaming (pure a) := by
  intro bytes b rest later h
  cases h
  rfl

theorem Streaming.failure : Streaming (failure : Reader α) := by
  intro bytes a rest later h
  cases h

theorem Streaming.bind {r : Reader α} {f : α → Reader β} (hr : Streaming r)
    (hf : ∀ a, Streaming (f a)) : Streaming (r >>= f) := by
  intro bytes b rest later h
  obtain ⟨a, mid, hread, hmid⟩ := bind_eq_some.mp h
  exact bind_eq_some.mpr ⟨a, mid ++ later, hr _ _ _ later hread, hf a _ _ _ later hmid⟩

/-- A check of what has been read, which takes no bytes. -/
def check : Option α → Reader α
  | some a => pure a
  | none => failure

theorem check_reads {o : Option α} {a : α} (h : o = some a) : Reads (check o) [] a := by
  rw [h]
  exact Reads.pure a

theorem check_streaming : ∀ o : Option α, Streaming (check o)
  | some a => Streaming.pure a
  | none => Streaming.failure

theorem check_eq_some {o : Option α} {bytes rest : List UInt8} {a : α} :
    check o bytes = some (a, rest) ↔ o = some a ∧ rest = bytes := by
  cases o with
  | none =>
    constructor
    · intro h
      cases h
    · rintro ⟨h, -⟩
      cases h
  | some b =>
    show some (b, bytes) = some (a, rest) ↔ _
    rw [Option.some.injEq, Option.some.injEq, Prod.mk.injEq, eq_comm (a := bytes)]

/-! ## Bytes and integers -/

/-- The next `n` bytes. -/
def takeBytes (n : Nat) : Reader (List UInt8) := fun bytes =>
  if n ≤ bytes.length then some (bytes.take n, bytes.drop n) else none

theorem takeBytes_reads (bytes : List UInt8) : Reads (takeBytes bytes.length) bytes bytes := by
  intro rest
  rw [takeBytes, if_pos (by simp), List.take_left, List.drop_left]

theorem takeBytes_eq_some {n : Nat} {bytes taken rest : List UInt8} :
    takeBytes n bytes = some (taken, rest) ↔ bytes = taken ++ rest ∧ taken.length = n := by
  constructor
  · intro h
    rw [takeBytes] at h
    split at h
    case isTrue hle =>
      cases h
      exact ⟨(List.take_append_drop n bytes).symm, List.length_take_of_le hle⟩
    case isFalse => cases h
  · rintro ⟨rfl, rfl⟩
    exact takeBytes_reads taken rest

theorem takeBytes_streaming (n : Nat) : Streaming (takeBytes n) := by
  intro bytes a rest later h
  simp only [takeBytes] at h ⊢
  split at h
  case isTrue hle =>
    cases h
    rw [if_pos (by simp only [List.length_append]; omega), List.take_append_of_le_length hle,
      List.drop_append_of_le_length hle]
  case isFalse => cases h

/-- The last `width` digits of `n` to the base 256, the lowest first. -/
def writeLE : Nat → Nat → List UInt8
  | 0, _ => []
  | width + 1, n => UInt8.ofNat n :: writeLE width (n / 256)

def ofLE (bytes : List UInt8) : Nat := bytes.foldr (fun b n => b.toNat + 256 * n) 0

def readLE (width : Nat) : Reader Nat := do
  let bytes ← takeBytes width
  return ofLE bytes

@[simp] theorem length_writeLE : ∀ width n : Nat, (writeLE width n).length = width
  | 0, _ => rfl
  | width + 1, n => by rw [writeLE, List.length_cons, length_writeLE width]

theorem ofLE_writeLE : ∀ {width n : Nat}, n < 256 ^ width → ofLE (writeLE width n) = n
  | 0, n, h => by
    show 0 = n
    rw [Nat.pow_zero] at h
    omega
  | width + 1, n, h => by
    have hrest : n / 256 < 256 ^ width := by
      rw [Nat.pow_succ] at h
      exact Nat.div_lt_of_lt_mul (by omega)
    show (UInt8.ofNat n).toNat + 256 * ofLE (writeLE width (n / 256)) = n
    rw [ofLE_writeLE hrest, UInt8.toNat_ofNat']
    omega

theorem writeLE_ofLE : ∀ bytes : List UInt8, writeLE bytes.length (ofLE bytes) = bytes
  | [] => rfl
  | b :: bytes => by
    have hb : b.toNat < 256 := UInt8.toNat_lt b
    show UInt8.ofNat (b.toNat + 256 * ofLE bytes) ::
        writeLE bytes.length ((b.toNat + 256 * ofLE bytes) / 256) = b :: bytes
    have hlow : UInt8.ofNat (b.toNat + 256 * ofLE bytes) = b := by
      apply UInt8.toNat_inj.mp
      rw [UInt8.toNat_ofNat']
      omega
    have hhigh : (b.toNat + 256 * ofLE bytes) / 256 = ofLE bytes := by omega
    rw [hlow, hhigh, writeLE_ofLE bytes]

theorem readLE_reads {width n : Nat} (h : n < 256 ^ width) :
    Reads (readLE width) (writeLE width n) n := by
  have hbytes := takeBytes_reads (writeLE width n)
  rw [length_writeLE] at hbytes
  refine hbytes.last ?_
  rw [ofLE_writeLE h]
  exact Reads.pure n

/-- The same digits, the highest first. -/
def writeBE (width n : Nat) : List UInt8 := (writeLE width n).reverse

def ofBE (bytes : List UInt8) : Nat := ofLE bytes.reverse

@[simp] theorem length_writeBE (width n : Nat) : (writeBE width n).length = width := by
  simp [writeBE]

theorem ofBE_writeBE {width n : Nat} (h : n < 256 ^ width) : ofBE (writeBE width n) = n := by
  rw [ofBE, writeBE, List.reverse_reverse, ofLE_writeLE h]

theorem writeBE_ofBE (bytes : List UInt8) : writeBE bytes.length (ofBE bytes) = bytes := by
  rw [writeBE, ofBE, ← List.length_reverse, writeLE_ofLE, List.reverse_reverse]

theorem readLE_streaming (width : Nat) : Streaming (readLE width) :=
  (takeBytes_streaming width).bind fun _ => Streaming.pure _

/-! ## Strings and vectors

A length of eight bytes, then the bytes of the string or the elements. -/

/-- The bytes of the string in UTF-8. -/
def utf8 (s : String) : List UInt8 := s.toByteArray.data.toList

/-- The string with these bytes, when they are UTF-8. -/
def ofUtf8 (bytes : List UInt8) : Option String := String.fromUTF8? bytes.toByteArray

theorem length_utf8 (s : String) : (utf8 s).length = s.utf8ByteSize := by
  rw [← String.size_toByteArray]
  exact Array.length_toList

theorem ofUtf8_utf8 (s : String) : ofUtf8 (utf8 s) = some s := by
  have hbytes : (utf8 s).toByteArray = s.toByteArray := by
    apply ByteArray.ext
    rw [List.data_toByteArray, utf8, Array.toArray_toList]
  rw [ofUtf8, hbytes, String.fromUTF8?, dif_pos s.isValidUTF8]
  rfl

def writeString (s : String) : List UInt8 := writeLE 8 s.utf8ByteSize ++ utf8 s

def readString : Reader String := do
  let n ← readLE 8
  let bytes ← takeBytes n
  match ofUtf8 bytes with
  | some s => return s
  | none => failure

theorem readString_reads {s : String} (h : s.utf8ByteSize < 2 ^ 64) :
    Reads readString (writeString s) s := by
  refine (readLE_reads h).bind ?_
  rw [← length_utf8]
  refine (takeBytes_reads (utf8 s)).last ?_
  rw [ofUtf8_utf8]
  exact Reads.pure s

theorem readString_streaming : Streaming readString := by
  refine (readLE_streaming 8).bind fun n => (takeBytes_streaming n).bind fun bytes => ?_
  split
  · exact Streaming.pure _
  · exact Streaming.failure

def readMany (r : Reader α) : Nat → Reader (List α)
  | 0 => pure []
  | n + 1 => do
      let a ← r
      let as ← readMany r n
      return a :: as

def writeVec (write : α → List UInt8) (as : List α) : List UInt8 :=
  writeLE 8 as.length ++ as.flatMap write

def readVec (r : Reader α) : Reader (List α) := do
  let n ← readLE 8
  readMany r n

section Vec

variable {r : Reader α} {write : α → List UInt8}

theorem readMany_reads : ∀ {as : List α}, (∀ a ∈ as, Reads r (write a) a) →
    Reads (readMany r as.length) (as.flatMap write) as
  | [], _ => Reads.pure []
  | a :: as, h => by
    rw [List.forall_mem_cons] at h
    rw [List.flatMap_cons]
    exact h.1.bind ((readMany_reads h.2).last (Reads.pure _))

theorem readVec_reads {as : List α} (hlen : as.length < 2 ^ 64)
    (h : ∀ a ∈ as, Reads r (write a) a) : Reads (readVec r) (writeVec write as) as :=
  (readLE_reads hlen).bind (readMany_reads h)

theorem readMany_streaming (hr : Streaming r) : ∀ n, Streaming (readMany r n)
  | 0 => Streaming.pure []
  | n + 1 => hr.bind fun _ => (readMany_streaming hr n).bind fun _ => Streaming.pure _

theorem readVec_streaming (hr : Streaming r) : Streaming (readVec r) :=
  (readLE_streaming 8).bind fun n => readMany_streaming hr n

end Vec

/-! ## A file of records -/

/-- The records that are decoded before the first failure.  Every record takes a
byte at least, so as many turns as there are bytes are enough. -/
def readUpTo (r : Reader α) : Nat → List UInt8 → List α
  | 0, _ => []
  | turns + 1, bytes =>
      match r bytes with
      | some (a, rest) => a :: readUpTo r turns rest
      | none => []

def readAll (r : Reader α) (bytes : List UInt8) : List α := readUpTo r bytes.length bytes

section ReadAll

variable {r : Reader α} {write : α → List UInt8}

theorem readUpTo_records : ∀ {as : List α}, (∀ a ∈ as, Reads r (write a) a) →
    ∀ (tail : List UInt8) (turns : Nat), as.length ≤ turns →
      readUpTo r turns (as.flatMap write ++ tail) = as ++ readUpTo r (turns - as.length) tail
  | [], _, tail, turns, _ => rfl
  | a :: as, h, tail, turns, hturns => by
    rw [List.forall_mem_cons] at h
    obtain ⟨turns, rfl⟩ : ∃ n, turns = n + 1 := ⟨turns - 1, by simp at hturns; omega⟩
    have hleft : turns + 1 - (a :: as).length = turns - as.length := by simp
    rw [List.flatMap_cons, List.append_assoc, readUpTo, h.1, hleft]
    show a :: readUpTo r turns (as.flatMap write ++ tail) = _
    rw [readUpTo_records h.2 tail turns (by simpa using hturns), List.cons_append]

theorem readUpTo_none {tail : List UInt8} (h : r tail = none) : ∀ turns, readUpTo r turns tail = []
  | 0 => rfl
  | turns + 1 => by rw [readUpTo, h]

theorem length_le_flatMap (hne : ∀ a, write a ≠ []) :
    ∀ as : List α, as.length ≤ (as.flatMap write).length
  | [] => Nat.le_refl 0
  | a :: as => by
    have hpos : 0 < (write a).length := List.length_pos_iff.mpr (hne a)
    have ih := length_le_flatMap hne as
    rw [List.flatMap_cons, List.length_append, List.length_cons]
    omega

end ReadAll

/-! ## Formats of records -/

/-- A format for the records that are `Valid`. -/
structure RecordCodec (Valid : α → Prop) where
  write : α → List UInt8
  read : Reader α
  write_ne_nil : ∀ a, write a ≠ []
  read_back : ∀ {a}, Valid a → Reads read (write a) a
  cut_short : ∀ {a} {k : Nat}, Valid a → k < (write a).length → read ((write a).take k) = none

namespace RecordCodec

variable {Valid : α → Prop} (c : RecordCodec Valid)

/-- The loop over a file that begins with whole records. -/
theorem readAll_append {as : List α} (h : ∀ a ∈ as, Valid a) (tail : List UInt8) :
    ∃ turns, readAll c.read (as.flatMap c.write ++ tail) = as ++ readUpTo c.read turns tail := by
  have hturns : as.length ≤ (as.flatMap c.write ++ tail).length := by
    have := length_le_flatMap c.write_ne_nil as
    rw [List.length_append]
    omega
  exact ⟨_, readUpTo_records (fun a ha => c.read_back (h a ha)) tail _ hturns⟩

/-- Whole records are read back, whatever follows them. -/
theorem prefix_readAll {as : List α} (h : ∀ a ∈ as, Valid a) (tail : List UInt8) :
    as <+: readAll c.read (as.flatMap c.write ++ tail) := by
  obtain ⟨turns, hread⟩ := c.readAll_append h tail
  rw [hread]
  exact List.prefix_append _ _

/-- A last record that is cut short adds nothing. -/
theorem readAll_torn {as : List α} (h : ∀ a ∈ as, Valid a) (torn : α) (htorn : Valid torn)
    {k : Nat} (hk : k < (c.write torn).length) :
    readAll c.read (as.flatMap c.write ++ (c.write torn).take k) = as := by
  obtain ⟨turns, hread⟩ := c.readAll_append h ((c.write torn).take k)
  rw [hread, readUpTo_none (c.cut_short htorn hk), List.append_nil]

/-- Whole records and nothing else. -/
theorem readAll_records {as : List α} (h : ∀ a ∈ as, Valid a) :
    readAll c.read (as.flatMap c.write) = as := by
  cases as with
  | nil => rfl
  | cons a as =>
    have htorn := c.readAll_torn h a (h a List.mem_cons_self)
      (List.length_pos_iff.mpr (c.write_ne_nil a))
    rwa [List.take_zero, List.append_nil] at htorn

end RecordCodec

end ByteReader
