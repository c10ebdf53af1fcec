import OxideKv.StateMachine.Model

/-!
# The JSON of the memtable log

`append_wal` writes an operation as the text of `serde_json::to_string`, and
`open` reads it with `serde_json::from_str`.  `WalJson` is what the log relies on:
the text is read back, it is that of an object, and it has no newline.

`compactJson` is that text for the two operations of the log.  Strings are
escaped as `serde_json` does it: a quote, a backslash and the control characters,
the others as they are.  The reader takes exactly these texts; `from_str` also
takes other spellings of the same object, which no `append_wal` writes.
-/

namespace OxideKv

/-- `serde_json` on the operations of the log. -/
structure WalJson where
  /-- `serde_json::to_string`. -/
  toJson : WalOp → String
  /-- `serde_json::from_str`. -/
  fromStr : String → Option WalOp
  round_trip : ∀ op, fromStr (toJson op) = some op
  object : ∀ op, ∃ body, toJson op = String.ofList ('{' :: (body ++ ['}']))
  one_line : ∀ op, '\n' ∉ (toJson op).toList

namespace WalJson

/-! ## Strings -/

def hexDigit (n : Nat) : Char := if n < 10 then Char.ofNat (48 + n) else Char.ofNat (87 + n)

def hexValue (c : Char) : Nat := if c.toNat < 58 then c.toNat - 48 else c.toNat - 87

/-- One character of a string, with the escapes of `serde_json`. -/
def escapeChar (c : Char) : List Char :=
  if c = '"' then ['\\', '"']
  else if c = '\\' then ['\\', '\\']
  else if c = '\x08' then ['\\', 'b']
  else if c = '\x0c' then ['\\', 'f']
  else if c = '\n' then ['\\', 'n']
  else if c = '\r' then ['\\', 'r']
  else if c = '\t' then ['\\', 't']
  else if c.toNat < 32 then ['\\', 'u', '0', '0', hexDigit (c.toNat / 16), hexDigit (c.toNat % 16)]
  else [c]

/-- The characters up to the closing quote, and the rest. -/
def unescape : List Char → Option (List Char × List Char)
  | [] => none
  | '"' :: rest => some ([], rest)
  | '\\' :: 'u' :: '0' :: '0' :: high :: low :: rest =>
      (unescape rest).map (·.map (Char.ofNat (16 * hexValue high + hexValue low) :: ·) id)
  | '\\' :: 'b' :: rest => (unescape rest).map (·.map ('\x08' :: ·) id)
  | '\\' :: 'f' :: rest => (unescape rest).map (·.map ('\x0c' :: ·) id)
  | '\\' :: 'n' :: rest => (unescape rest).map (·.map ('\n' :: ·) id)
  | '\\' :: 'r' :: rest => (unescape rest).map (·.map ('\r' :: ·) id)
  | '\\' :: 't' :: rest => (unescape rest).map (·.map ('\t' :: ·) id)
  | '\\' :: '"' :: rest => (unescape rest).map (·.map ('"' :: ·) id)
  | '\\' :: '\\' :: rest => (unescape rest).map (·.map ('\\' :: ·) id)
  | '\\' :: _ => none
  | c :: rest => (unescape rest).map (·.map (c :: ·) id)

theorem unescape_escapeChar (c : Char) (rest : List Char) :
    unescape (escapeChar c ++ rest) = (unescape rest).map (·.map (c :: ·) id) := by
  unfold escapeChar
  split_ifs with h1 h2 h3 h4 h5 h6 h7 h8
  · subst h1; rfl
  · subst h2; rfl
  · subst h3; rfl
  · subst h4; rfl
  · subst h5; rfl
  · subst h6; rfl
  · subst h7; rfl
  · have hhex : Char.ofNat (16 * hexValue (hexDigit (c.toNat / 16)) +
        hexValue (hexDigit (c.toNat % 16))) = c := by
      have : ∀ n < 32, 16 * hexValue (hexDigit (n / 16)) + hexValue (hexDigit (n % 16)) = n := by
        decide
      rw [this _ h8, Char.ofNat_toNat]
    simp only [List.cons_append, List.nil_append, unescape, hhex]
  · rw [List.singleton_append, unescape] <;> simp_all

theorem unescape_flatMap (cs rest : List Char) :
    unescape (cs.flatMap escapeChar ++ '"' :: rest) = some (cs, rest) := by
  induction cs with
  | nil => rfl
  | cons c cs ih =>
    rw [List.flatMap_cons, List.append_assoc, unescape_escapeChar, ih]
    rfl

def printString (s : String) : List Char := '"' :: (s.toList.flatMap escapeChar ++ ['"'])

def readQuoted : List Char → Option (String × List Char)
  | '"' :: rest => (unescape rest).map (·.map String.ofList id)
  | _ => none

theorem readQuoted_printString (s : String) (rest : List Char) :
    readQuoted (printString s ++ rest) = some (s, rest) := by
  rw [printString, List.cons_append, List.append_assoc, readQuoted, List.singleton_append,
    unescape_flatMap, Option.map_some, Prod.map_apply, String.ofList_toList]
  rfl

/-! ## Operations -/

/-- The rest of the input behind `text`. -/
def expect (text input : List Char) : Option (List Char) :=
  if text.isPrefixOf input then some (input.drop text.length) else none

theorem expect_append (text rest : List Char) : expect text (text ++ rest) = some rest := by
  rw [expect, if_pos (List.isPrefixOf_iff_prefix.mpr (List.prefix_append _ _)), List.drop_left]

def putHead : List Char := "\x7b\"Put\":\x7b\"key\":".toList
def putValue : List Char := ",\"value\":".toList
def deleteHead : List Char := "\x7b\"Delete\":\x7b\"key\":".toList
def opTail : List Char := "\x7d\x7d".toList

def printOp : WalOp → List Char
  | .put key value =>
      putHead ++ (printString key ++ (putValue ++ (printString value ++ opTail)))
  | .delete key => deleteHead ++ (printString key ++ opTail)

def parsePut (input : List Char) : Option WalOp := do
  let (key, input) ← readQuoted (← expect putHead input)
  let (value, input) ← readQuoted (← expect putValue input)
  if input = opTail then return .put key value else none

def parseDelete (input : List Char) : Option WalOp := do
  let (key, input) ← readQuoted (← expect deleteHead input)
  if input = opTail then return .delete key else none

def parseOp (input : List Char) : Option WalOp := (parsePut input).or (parseDelete input)

theorem parseOp_printOp (op : WalOp) : parseOp (printOp op) = some op := by
  cases op with
  | put key value =>
    have hput : parsePut (printOp (.put key value)) = some (.put key value) := by
      simp [parsePut, printOp, expect_append, readQuoted_printString]
    rw [parseOp, hput, Option.some_or]
  | delete key =>
    have hput : parsePut (printOp (.delete key)) = none := by
      have : expect putHead (printOp (.delete key)) = none := rfl
      simp [parsePut, this]
    have hdelete : parseDelete (printOp (.delete key)) = some (.delete key) := by
      simp [parseDelete, printOp, expect_append, readQuoted_printString]
    rw [parseOp, hput, hdelete, Option.none_or]

theorem newline_not_mem_escapeChar (c : Char) : '\n' ∉ escapeChar c := by
  have hdigit : ∀ n < 16, '\n' ≠ hexDigit n := by decide
  unfold escapeChar
  split_ifs with _ _ _ _ hnew _ _ hcontrol <;> simp
  · exact ⟨hdigit _ (by omega), hdigit _ (by omega)⟩
  · exact fun h => hnew h.symm

theorem newline_not_mem_printString (s : String) : '\n' ∉ printString s := by
  have hbody : '\n' ∉ s.toList.flatMap escapeChar := by
    intro hmem
    obtain ⟨c, _, hc⟩ := List.mem_flatMap.mp hmem
    exact newline_not_mem_escapeChar c hc
  simp [printString, hbody]

theorem newline_not_mem_printOp (op : WalOp) : '\n' ∉ printOp op := by
  have hstring := newline_not_mem_printString
  have htail : '\n' ∉ opTail := by decide
  cases op with
  | put key value =>
    have hhead : '\n' ∉ putHead := by decide
    have hvalue : '\n' ∉ putValue := by decide
    simp only [printOp, List.mem_append, hstring, hhead, hvalue, htail, or_self, not_false_eq_true]
  | delete key =>
    have hhead : '\n' ∉ deleteHead := by decide
    simp only [printOp, List.mem_append, hstring, hhead, htail, or_self, not_false_eq_true]

theorem printOp_object (op : WalOp) : ∃ body, printOp op = '{' :: (body ++ ['}']) := by
  have htail : opTail = ['}'] ++ ['}'] := by decide
  cases op with
  | put key value =>
    refine ⟨putHead.tail ++ (printString key ++ (putValue ++ (printString value ++ ['}']))), ?_⟩
    simp only [printOp, htail, ← List.append_assoc]
    rfl
  | delete key =>
    refine ⟨deleteHead.tail ++ (printString key ++ ['}']), ?_⟩
    simp only [printOp, htail, ← List.append_assoc]
    rfl

/-- The text of `serde_json::to_string`, and its reader. -/
def compactJson : WalJson where
  toJson op := String.ofList (printOp op)
  fromStr s := parseOp s.toList
  round_trip op := by rw [String.toList_ofList, parseOp_printOp]
  object op := by
    obtain ⟨body, hbody⟩ := printOp_object op
    exact ⟨body, by rw [hbody]⟩
  one_line op := by
    rw [String.toList_ofList]
    exact newline_not_mem_printOp op

example : compactJson.toJson (.put "k" "a\nb") =
    "\x7b\"Put\":\x7b\"key\":\"k\",\"value\":\"a\\nb\"\x7d\x7d" := by
  decide +kernel

end WalJson

end OxideKv
