import Mathlib.Data.List.DropRight
import OxideKv.Lib.ByteReader

/-!
# Text lines in a file

`readLines` cuts a file behind every newline, as a loop over `read_line` does:
the last line may have none.  A file is `Whole` when it ends with a newline or is
empty.  What is appended to such a file is on lines of its own
(`readLines_append`), and that is the only case in which it is.

`trim` drops the characters of Unicode's `White_Space` at both ends of a line.
-/

namespace Lines

open ByteReader

def newline : UInt8 := 10

/-- The lines of a file, each with its newline. -/
def readLines : List UInt8 → List (List UInt8)
  | [] => []
  | b :: bytes =>
      if b = newline then [b] :: readLines bytes
      else
        match readLines bytes with
        | [] => [[b]]
        | line :: lines => (b :: line) :: lines

/-- The file does not end inside a line. -/
def Whole (file : List UInt8) : Prop := ∀ b ∈ file.getLast?, b = newline

instance (file : List UInt8) : Decidable (Whole file) :=
  decidable_of_iff (file.getLast?.all (fun b => b == newline) = true) (by simp [Whole, Option.all_eq_true])

theorem readLines_ne_nil {bytes : List UInt8} (h : bytes ≠ []) : readLines bytes ≠ [] := by
  cases bytes with
  | nil => exact absurd rfl h
  | cons b bytes =>
    rw [readLines]
    split
    · simp
    · split <;> simp

theorem whole_of_cons {b : UInt8} {bytes : List UInt8} (h : Whole (b :: bytes)) :
    Whole bytes := by
  intro c hc
  apply h
  rw [Option.mem_def] at hc ⊢
  rw [List.getLast?_cons, hc]
  rfl

/-- What follows a whole file is on lines of its own. -/
theorem readLines_append {file : List UInt8} (h : Whole file) (bytes : List UInt8) :
    readLines (file ++ bytes) = readLines file ++ readLines bytes := by
  induction file with
  | nil => rfl
  | cons b file ih =>
    by_cases hfile : file = []
    · subst hfile
      have hb : b = newline := h b rfl
      rw [List.singleton_append, readLines, readLines, if_pos hb, if_pos hb]
      rfl
    · have hrest := ih (whole_of_cons h)
      rw [List.cons_append, readLines, readLines, hrest]
      by_cases hb : b = newline
      · rw [if_pos hb, if_pos hb, List.cons_append]
      · rw [if_neg hb, if_neg hb]
        -- the rest of the file has a line, and `b` goes to the front of it
        cases hlines : readLines file with
        | nil => exact absurd hlines (readLines_ne_nil hfile)
        | cons line lines => rfl

/-- Text without a newline is one line. -/
theorem readLines_text {text : List UInt8} (hne : text ≠ []) (h : newline ∉ text) :
    readLines text = [text] := by
  induction text with
  | nil => exact absurd rfl hne
  | cons b text ih =>
    rw [List.mem_cons, not_or] at h
    rw [readLines, if_neg fun hb => h.1 hb.symm]
    by_cases htext : text = []
    · subst htext
      rfl
    · rw [ih htext h.2]

theorem readLines_line {text : List UInt8} (h : newline ∉ text) :
    readLines (text ++ [newline]) = [text ++ [newline]] := by
  induction text with
  | nil => rfl
  | cons b text ih =>
    rw [List.mem_cons, not_or] at h
    rw [List.cons_append, readLines, if_neg fun hb => h.1 hb.symm, ih h.2]

/-! ## Characters -/

theorem utf8_ofList (cs : List Char) :
    utf8 (String.ofList cs) = cs.flatMap String.utf8EncodeChar := by
  rw [utf8, String.toByteArray_ofList, List.utf8Encode, List.toList_data_toByteArray]

theorem utf8_append (s t : String) : utf8 (s ++ t) = utf8 s ++ utf8 t := by
  rw [utf8, String.toByteArray_append]
  simp [utf8]

theorem ofNat_ne_newline {n : Nat} (h : n % 256 ≠ 10) : newline ≠ UInt8.ofNat n := by
  intro heq
  have hnat := congrArg UInt8.toNat heq
  rw [UInt8.toNat_ofNat'] at hnat
  exact h hnat.symm

/-- The bytes of a character beyond ASCII are all above 127. -/
theorem newline_not_mem_utf8EncodeChar {c : Char} (h : c ≠ '\n') :
    newline ∉ String.utf8EncodeChar c := by
  have hval : c.val.toNat ≠ 10 := fun hc => h (Char.toNat_inj.mp hc)
  simp only [String.utf8EncodeChar]
  split_ifs with h1 h2 h3 <;> simp only [List.mem_cons, List.not_mem_nil, or_false, not_or]
  · exact ofNat_ne_newline (by omega)
  · exact ⟨ofNat_ne_newline (by omega), ofNat_ne_newline (by omega)⟩
  · exact ⟨ofNat_ne_newline (by omega), ofNat_ne_newline (by omega), ofNat_ne_newline (by omega)⟩
  · exact ⟨ofNat_ne_newline (by omega), ofNat_ne_newline (by omega), ofNat_ne_newline (by omega),
      ofNat_ne_newline (by omega)⟩

theorem newline_not_mem_utf8 {s : String} (h : '\n' ∉ s.toList) : newline ∉ utf8 s := by
  rw [← String.ofList_toList (s := s), utf8_ofList]
  intro hmem
  obtain ⟨c, hc, hbyte⟩ := List.mem_flatMap.mp hmem
  refine newline_not_mem_utf8EncodeChar (fun hnew => h (hnew ▸ ?_)) hbyte
  simpa using hc

/-- `char::is_whitespace`. -/
def isWhitespace (c : Char) : Bool :=
  let n := c.toNat
  (9 ≤ n ∧ n ≤ 13) ∨ n = 32 ∨ n = 0x85 ∨ n = 0xa0 ∨ n = 0x1680 ∨ (0x2000 ≤ n ∧ n ≤ 0x200a) ∨
    n = 0x2028 ∨ n = 0x2029 ∨ n = 0x202f ∨ n = 0x205f ∨ n = 0x3000

/-- `str::trim`. -/
def trim (s : String) : String :=
  String.ofList ((s.toList.dropWhile isWhitespace).rdropWhile isWhitespace)

theorem rdropWhile_append_of_all {α : Type} {p : α → Bool} {xs ys : List α}
    (h : ∀ y ∈ ys, p y = true) : (xs ++ ys).rdropWhile p = xs.rdropWhile p := by
  induction ys using List.reverseRecOn with
  | nil => rw [List.append_nil]
  | append_singleton ys y ih =>
    rw [← List.append_assoc,
      List.rdropWhile_concat_pos p _ y (h y (List.mem_append_right _ (List.mem_singleton_self y)))]
    exact ih fun z hz => h z (List.mem_append_left _ hz)

/-- Only the white space behind the text goes. -/
theorem trim_padded {first last : Char} (body padding : List Char)
    (hfirst : isWhitespace first = false) (hlast : isWhitespace last = false)
    (hpadding : ∀ c ∈ padding, isWhitespace c = true) :
    trim (String.ofList (first :: (body ++ [last]) ++ padding)) =
      String.ofList (first :: (body ++ [last])) := by
  rw [trim, String.toList_ofList, List.cons_append,
    List.dropWhile_cons_of_neg (by simp [hfirst]), ← List.cons_append,
    rdropWhile_append_of_all hpadding, ← List.cons_append,
    List.rdropWhile_concat_neg _ _ _ (by simp [hlast])]

end Lines
