import OxideKv.Lib.ByteReader

/-!
# The proto3 wire format

The bytes of a message are the bytes of its fields.  A field starts with a key,
which holds its number and how the value is stored: a variable-length integer,
or a length and as many bytes.  A scalar field that has its default value takes
no bytes at all, and a nested message is stored as its own bytes.

The second part is what the lengths are.  A length that is written in front of
a message makes it longer by an amount that grows with the message, so that the
size of a message is a bound on its parts and not simply their sum
(`length_varint_le_iff`, `length_lenField`).
-/

namespace Proto3

open ByteReader (utf8 length_utf8)

/-! ## Fields -/

/-- Seven bits a byte, the lowest first.  The top bit says that more follow. -/
def varintUpTo : Nat → Nat → List UInt8
  | 0, _ => []
  | turns + 1, n =>
      if n < 128 then [UInt8.ofNat n]
      else UInt8.ofNat (n % 128 + 128) :: varintUpTo turns (n / 128)

/-- Ten bytes are enough for 64 bits. -/
def varint (n : Nat) : List UInt8 := varintUpTo 10 n

def key (tag wireType : Nat) : List UInt8 := varint (8 * tag + wireType)

def uint64Field (tag n : Nat) : List UInt8 :=
  if n = 0 then [] else key tag 0 ++ varint n

def boolField (tag : Nat) (b : Bool) : List UInt8 :=
  if b then key tag 0 ++ varint 1 else []

/-- An enumeration, as the 64-bit two's complement of its number. -/
def enumField (tag : Nat) (i : Int32) : List UInt8 :=
  if i = 0 then [] else key tag 0 ++ varint i.toInt64.toUInt64.toNat

/-- A nested message, or a string that is written even when it is empty. -/
def lenField (tag : Nat) (bytes : List UInt8) : List UInt8 :=
  key tag 2 ++ (varint bytes.length ++ bytes)

def stringField (tag : Nat) (s : String) : List UInt8 :=
  if s = "" then [] else lenField tag (utf8 s)

/-- A map is a repeated message of a key and a value. -/
def mapField (tag : Nat) (entries : List (String × String)) : List UInt8 :=
  entries.flatMap fun p => lenField tag (stringField 1 p.1 ++ stringField 2 p.2)

/-! ## Lengths -/

theorem length_varintUpTo_le : ∀ turns n : Nat, (varintUpTo turns n).length ≤ turns
  | 0, _ => Nat.le_refl 0
  | turns + 1, n => by
    rw [varintUpTo]
    split
    · simp
    · have ih := length_varintUpTo_le turns (n / 128)
      simp only [List.length_cons]
      omega

theorem length_varintUpTo_pos (turns n : Nat) : 0 < (varintUpTo (turns + 1) n).length := by
  rw [varintUpTo]
  split <;> simp

theorem length_varintUpTo_le_iff : ∀ {k turns n : Nat}, k + 1 < turns →
    ((varintUpTo turns n).length ≤ k + 1 ↔ n < 128 ^ (k + 1))
  | k, turns + 2, n, hk => by
    rw [varintUpTo]
    by_cases hn : n < 128
    · have hpow : 128 ≤ 128 ^ (k + 1) := Nat.le_self_pow (by omega) 128
      rw [if_pos hn, List.length_singleton]
      omega
    · rw [if_neg hn, List.length_cons, Nat.pow_succ]
      cases k with
      | zero =>
        have hpos := length_varintUpTo_pos turns (n / 128)
        omega
      | succ k =>
        have ih := length_varintUpTo_le_iff (n := n / 128) (by omega : k + 1 < turns + 1)
        rw [← Nat.div_lt_iff_lt_mul (by omega : 0 < 128), ← ih]
        omega

theorem length_varint_le (n : Nat) : (varint n).length ≤ 10 := length_varintUpTo_le 10 n

theorem length_varint_pos (n : Nat) : 0 < (varint n).length := length_varintUpTo_pos 9 n

theorem length_varint_le_iff {k n : Nat} (hk : k < 9) :
    (varint n).length ≤ k + 1 ↔ n < 128 ^ (k + 1) :=
  length_varintUpTo_le_iff (by omega)

theorem length_key {tag wireType : Nat} (htag : tag < 16) (htype : wireType < 8) :
    (key tag wireType).length = 1 := by
  have hle : (key tag wireType).length ≤ 1 :=
    (length_varint_le_iff (k := 0) (by omega)).mpr (by omega)
  have hpos : 0 < (key tag wireType).length := length_varint_pos _
  omega

theorem length_lenField {tag : Nat} (htag : tag < 16) (bytes : List UInt8) :
    (lenField tag bytes).length = 1 + (varint bytes.length).length + bytes.length := by
  simp only [lenField, List.length_append, length_key htag (by omega : 2 < 8)]
  omega

theorem length_lenField_le (tag : Nat) (htag : tag < 16) (bytes : List UInt8) :
    (lenField tag bytes).length ≤ bytes.length + 11 := by
  have hvarint := length_varint_le bytes.length
  rw [length_lenField htag]
  omega

theorem le_length_lenField (tag : Nat) (bytes : List UInt8) :
    bytes.length ≤ (lenField tag bytes).length := by
  simp only [lenField, List.length_append]
  omega

theorem length_uint64Field_le (tag : Nat) (htag : tag < 16) (n : Nat) :
    (uint64Field tag n).length ≤ 11 := by
  rw [uint64Field]
  split
  · simp
  · have hvarint := length_varint_le n
    rw [List.length_append, length_key htag (by omega : 0 < 8)]
    omega

theorem length_stringField_le (tag : Nat) (htag : tag < 16) (s : String) :
    (stringField tag s).length ≤ s.utf8ByteSize + 11 := by
  rw [stringField]
  split
  · simp
  · rw [← length_utf8]
    exact length_lenField_le tag htag (utf8 s)

/-- A field is at least as long as its string. -/
theorem le_length_stringField (tag : Nat) (s : String) :
    s.utf8ByteSize ≤ (stringField tag s).length := by
  rw [stringField]
  split
  case isTrue hempty => simp [hempty]
  case isFalse =>
    rw [← length_utf8]
    exact le_length_lenField tag (utf8 s)

end Proto3
