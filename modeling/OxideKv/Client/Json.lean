import Mathlib.Data.List.Sort
import Mathlib.Data.Nat.Digits.Defs
import Mathlib.Data.String.Basic
import OxideKv.StateMachine.WalJson

/-!
# JSON on the client port

Requests and replies are JSON values, one to a line.  `SerdeJson` is what both
ends rely on: the text of a value has no newline, and with a newline behind it
is read as that value.  This is said of `Canonical` values, the ones that
`json!` builds: the fields of an object are in the order of their keys, no key
comes twice, and numbers are `u64`.

`compactJson` prints values as `serde_json` does, without spaces, and reads
these texts again.
-/

namespace OxideKv

/-- The fields of an object are in the order of the text. -/
inductive Json where
  | null
  | bool (b : Bool)
  | num (n : Nat)
  /-- A number that is no `u64`. -/
  | number (text : String)
  | str (s : String)
  | arr (items : List Json)
  | obj (fields : List (String × Json))

namespace Json

/-- `Value::get` on an object. -/
def get (v : Json) (key : String) : Option Json :=
  match v with
  | .obj fields => (fields.reverse.find? fun f => f.1 = key).map Prod.snd
  | _ => none

def asStr : Json → Option String
  | .str s => some s
  | _ => none

def asU64 : Json → Option Nat
  | .num n => some n
  | _ => none

/-- `json!` with an object: the fields are put into a map. -/
def object (fields : List (String × Json)) : Json :=
  .obj (fields.insertionSort fun f g => f.1 ≤ g.1)

mutual

/-- What `json!` builds and a `Value` holds. -/
def Canonical : Json → Prop
  | .number _ => False
  | .arr items => CanonicalItems items
  | .obj fields => (fields.map Prod.fst).Pairwise (· < ·) ∧ CanonicalFields fields
  | _ => True

def CanonicalItems : List Json → Prop
  | [] => True
  | v :: vs => v.Canonical ∧ CanonicalItems vs

def CanonicalFields : List (String × Json) → Prop
  | [] => True
  | (_, v) :: fields => v.Canonical ∧ CanonicalFields fields

end

theorem canonicalFields_iff {fields : List (String × Json)} :
    CanonicalFields fields ↔ ∀ f ∈ fields, f.2.Canonical := by
  induction fields with
  | nil => simp [CanonicalFields]
  | cons f fields ih => rw [CanonicalFields, ih, List.forall_mem_cons]

theorem canonicalItems_iff {items : List Json} :
    CanonicalItems items ↔ ∀ v ∈ items, v.Canonical := by
  induction items with
  | nil => simp [CanonicalItems]
  | cons v vs ih => rw [CanonicalItems, ih, List.forall_mem_cons]

/-! ## Objects -/

theorem keys_object_pairwise (fields : List (String × Json)) :
    (fields.insertionSort fun f g => f.1 ≤ g.1).Pairwise fun f g => f.1 ≤ g.1 := by
  have : Std.Total fun f g : String × Json => f.1 ≤ g.1 := ⟨fun f g => le_total f.1 g.1⟩
  have : IsTrans (String × Json) fun f g => f.1 ≤ g.1 := ⟨fun _ _ _ => le_trans⟩
  exact List.pairwise_insertionSort _ fields

theorem nodup_keys_object {fields : List (String × Json)} (h : (fields.map Prod.fst).Nodup) :
    ((fields.insertionSort fun f g => f.1 ≤ g.1).map Prod.fst).Nodup :=
  ((List.perm_insertionSort _ fields).map Prod.fst).nodup_iff.mpr h

theorem object_canonical {fields : List (String × Json)} (hkeys : (fields.map Prod.fst).Nodup)
    (h : ∀ f ∈ fields, f.2.Canonical) : (object fields).Canonical := by
  refine ⟨?_, canonicalFields_iff.mpr fun f hf => h f ((List.mem_insertionSort _).mp hf)⟩
  have hle := List.pairwise_map.mpr (keys_object_pairwise fields)
  exact (hle.and (nodup_keys_object hkeys)).imp fun h => lt_of_le_of_ne h.1 h.2

end Json

/-- `serde_json` on the values of the protocol. -/
structure SerdeJson where
  /-- `serde_json::to_string`. -/
  toJson : Json → String
  /-- `serde_json::from_str`. -/
  fromStr : String → Except String Json
  /-- The text of the error for a value that is no command. -/
  unexpected : Json → String
  read_back : ∀ v : Json, v.Canonical → fromStr (toJson v ++ "\n") = .ok v
  one_line : ∀ v : Json, v.Canonical → '\n' ∉ (toJson v).toList

namespace Json

open WalJson

/-! ## Numbers -/

def printNat (n : Nat) : List Char :=
  if n = 0 then ['0'] else (Nat.digits 10 n).reverse.map Nat.digitChar

def digitValue (c : Char) : Nat := c.toNat - 48

/-- The digits in front, and the rest. -/
def readNat (input : List Char) : Nat × List Char :=
  (Nat.ofDigits 10 ((input.takeWhile Char.isDigit).reverse.map digitValue),
    input.dropWhile Char.isDigit)

theorem digitChar_lt_ten : ∀ n < 10,
    (Nat.digitChar n).isDigit = true ∧ digitValue (Nat.digitChar n) = n := by
  decide

theorem printNat_isDigit (n : Nat) : ∀ c ∈ printNat n, c.isDigit = true := by
  unfold printNat
  split_ifs with h
  · simp
  · intro c hc
    obtain ⟨k, hk, rfl⟩ := List.mem_map.mp hc
    exact (digitChar_lt_ten k (Nat.digits_lt_base (by decide) (List.mem_reverse.mp hk))).1

theorem printNat_ne_nil (n : Nat) : printNat n ≠ [] := by
  unfold printNat
  split_ifs with h
  · simp
  · simp [Nat.digits_ne_nil_iff_ne_zero.mpr h]

theorem ofDigits_printNat (n : Nat) :
    Nat.ofDigits 10 ((printNat n).reverse.map digitValue) = n := by
  unfold printNat
  split_ifs with h
  · subst h
    decide
  · rw [← List.map_reverse, List.reverse_reverse, List.map_map]
    have hmap : (Nat.digits 10 n).map (digitValue ∘ Nat.digitChar) = Nat.digits 10 n := by
      conv_rhs => rw [← List.map_id (Nat.digits 10 n)]
      exact List.map_congr_left fun k hk =>
        (digitChar_lt_ten k (Nat.digits_lt_base (by decide) hk)).2
    rw [hmap, Nat.ofDigits_digits]

/-- The number ends where the rest begins. -/
theorem readNat_printNat (n : Nat) {rest : List Char} (h : ∀ c ∈ rest.head?, c.isDigit = false) :
    readNat (printNat n ++ rest) = (n, rest) := by
  have htake : (printNat n ++ rest).takeWhile Char.isDigit = printNat n := by
    rw [List.takeWhile_append_of_pos (printNat_isDigit n)]
    cases rest with
    | nil => simp
    | cons c rest => simp [h c rfl]
  have hdrop : (printNat n ++ rest).dropWhile Char.isDigit = rest := by
    rw [List.dropWhile_append_of_pos (printNat_isDigit n)]
    cases rest with
    | nil => rfl
    | cons c rest => simp [h c rfl]
  rw [readNat, htake, hdrop, ofDigits_printNat]

/-! ## Printing -/

mutual

def print : Json → List Char
  | .null => ['n', 'u', 'l', 'l']
  | .bool true => ['t', 'r', 'u', 'e']
  | .bool false => ['f', 'a', 'l', 's', 'e']
  | .num n => printNat n
  | .number text => text.toList
  | .str s => printString s
  | .arr [] => ['[', ']']
  | .arr (v :: vs) => '[' :: (print v ++ printItems vs)
  | .obj [] => ['\x7b', '\x7d']
  | .obj ((k, v) :: fields) => '\x7b' :: (printString k ++ ':' :: (print v ++ printFields fields))

/-- The items behind the first one. -/
def printItems : List Json → List Char
  | [] => [']']
  | v :: vs => ',' :: (print v ++ printItems vs)

/-- The fields behind the first one. -/
def printFields : List (String × Json) → List Char
  | [] => ['\x7d']
  | (k, v) :: fields => ',' :: (printString k ++ ':' :: (print v ++ printFields fields))

end

/-! ## Reading -/

mutual

/-- A value at the front of the input, and the rest. -/
def parse : Nat → List Char → Option (Json × List Char)
  | 0, _ => none
  | fuel + 1, input =>
      match input with
      | 'n' :: 'u' :: 'l' :: 'l' :: rest => some (.null, rest)
      | 't' :: 'r' :: 'u' :: 'e' :: rest => some (.bool true, rest)
      | 'f' :: 'a' :: 'l' :: 's' :: 'e' :: rest => some (.bool false, rest)
      | '"' :: _ => (readQuoted input).map fun p => (.str p.1, p.2)
      | '[' :: ']' :: rest => some (.arr [], rest)
      | '[' :: rest => do
          let (v, rest) ← parse fuel rest
          let (vs, rest) ← parseItems fuel rest
          return (.arr (v :: vs), rest)
      | '\x7b' :: '\x7d' :: rest => some (.obj [], rest)
      | '\x7b' :: rest => do
          let (f, rest) ← parseField fuel rest
          let (fields, rest) ← parseFields fuel rest
          return (.obj (f :: fields), rest)
      | c :: rest =>
          if c.isDigit then some (.num (readNat (c :: rest)).1, (readNat (c :: rest)).2) else none
      | [] => none

def parseItems : Nat → List Char → Option (List Json × List Char)
  | 0, _ => none
  | _ + 1, ']' :: rest => some ([], rest)
  | fuel + 1, ',' :: rest => do
      let (v, rest) ← parse fuel rest
      let (vs, rest) ← parseItems fuel rest
      return (v :: vs, rest)
  | _ + 1, _ => none

def parseField : Nat → List Char → Option ((String × Json) × List Char)
  | 0, _ => none
  | fuel + 1, input =>
      match readQuoted input with
      | some (k, ':' :: rest) => (parse fuel rest).map fun p => ((k, p.1), p.2)
      | _ => none

def parseFields : Nat → List Char → Option (List (String × Json) × List Char)
  | 0, _ => none
  | _ + 1, '\x7d' :: rest => some ([], rest)
  | fuel + 1, ',' :: rest => do
      let (f, rest) ← parseField fuel rest
      let (fields, rest) ← parseFields fuel rest
      return (f :: fields, rest)
  | _ + 1, _ => none

end

/-! ## What is printed is read back -/

/-- No digit follows. -/
def Stops (rest : List Char) : Prop := ∀ c ∈ rest.head?, c.isDigit = false

theorem stops_cons {c : Char} (h : c.isDigit = false) (rest : List Char) : Stops (c :: rest) := by
  intro d hd
  obtain rfl := Option.some.inj hd
  exact h

theorem printItems_stops (vs : List Json) (rest : List Char) : Stops (printItems vs ++ rest) := by
  cases vs <;> rw [printItems] <;> exact stops_cons (by decide) _

theorem printFields_stops (fields : List (String × Json)) (rest : List Char) :
    Stops (printFields fields ++ rest) := by
  rcases fields with _ | ⟨⟨k, v⟩, fields⟩ <;> rw [printFields] <;> exact stops_cons (by decide) _

theorem parse_digit {c : Char} (h : c.isDigit = true) (fuel : Nat) (rest : List Char) :
    parse (fuel + 1) (c :: rest) =
      some (.num (readNat (c :: rest)).1, (readNat (c :: rest)).2) := by
  rw [parse, if_pos h]
  -- no other value begins with a digit
  all_goals
    intros
    subst_vars
    revert h
    decide

/-- A bracket is not closed where a value begins. -/
theorem print_head {v : Json} (h : v.Canonical) : ∃ c cs, print v = c :: cs ∧ c ≠ ']' := by
  cases v with
  | null => exact ⟨_, _, rfl, by decide⟩
  | bool b => cases b <;> exact ⟨_, _, rfl, by decide⟩
  | num n =>
    obtain ⟨c, cs, hcs⟩ := List.exists_cons_of_ne_nil (printNat_ne_nil n)
    refine ⟨c, cs, by rw [print, hcs], ?_⟩
    rintro rfl
    have hdigit := printNat_isDigit n ']' (by rw [hcs]; exact List.mem_cons_self)
    revert hdigit
    decide
  | number text => exact h.elim
  | str s => exact ⟨_, _, rfl, by decide⟩
  | arr items => cases items <;> exact ⟨_, _, rfl, by decide⟩
  | obj fields => rcases fields with _ | ⟨⟨k, v⟩, fields⟩ <;> exact ⟨_, _, rfl, by decide⟩

mutual

theorem parse_print : ∀ {v : Json} {fuel : Nat} {rest : List Char}, v.Canonical → Stops rest →
    (print v).length ≤ fuel → parse fuel (print v ++ rest) = some (v, rest)
  | v, 0, rest, hv, _, hfuel => by
    obtain ⟨c, cs, hcs, -⟩ := print_head hv
    rw [hcs] at hfuel
    simp at hfuel
  | .null, fuel + 1, rest, _, _, _ => rfl
  | .bool true, fuel + 1, rest, _, _, _ => rfl
  | .bool false, fuel + 1, rest, _, _, _ => rfl
  | .num n, fuel + 1, rest, _, hrest, _ => by
    obtain ⟨c, cs, hcs⟩ := List.exists_cons_of_ne_nil (printNat_ne_nil n)
    have hdigit := printNat_isDigit n c (by rw [hcs]; exact List.mem_cons_self)
    have hread := readNat_printNat n hrest
    rw [hcs, List.cons_append] at hread
    rw [print, hcs, List.cons_append, parse_digit hdigit, hread]
  | .number text, fuel + 1, rest, hv, _, _ => hv.elim
  | .str s, fuel + 1, rest, _, _, _ => by
    have hread := readQuoted_printString s rest
    show (readQuoted (printString s ++ rest)).map _ = _
    rw [hread]
    rfl
  | .arr [], fuel + 1, rest, _, _, _ => rfl
  | .arr (v :: vs), fuel + 1, rest, hv, hrest, hfuel => by
    obtain ⟨hv, hvs⟩ : v.Canonical ∧ CanonicalItems vs := hv
    obtain ⟨c, cs, hcs, hc⟩ := print_head hv
    have hlen : (print v).length + (printItems vs).length ≤ fuel := by
      simp only [print, List.length_cons, List.length_append] at hfuel
      omega
    have hfirst := parse_print hv (printItems_stops vs rest) (by omega : _ ≤ fuel)
    have hmore : parseItems fuel (printItems vs ++ rest) = some (vs, rest) :=
      parseItems_printItems hvs (by omega)
    rw [print, List.cons_append, List.append_assoc]
    rw [hcs, List.cons_append] at hfirst ⊢
    rw [parse]
    · rw [hfirst]
      show (parseItems fuel (printItems vs ++ rest)).bind _ = _
      rw [hmore]
      rfl
    · intro rest' heq
      exact hc (List.cons.inj heq).1
  | .obj [], fuel + 1, rest, _, _, _ => rfl
  | .obj ((k, v) :: fields), fuel + 1, rest, hv, hrest, hfuel => by
    obtain ⟨hv, hfields⟩ : v.Canonical ∧ CanonicalFields fields := hv.2
    have hlen : (printString k).length + (print v).length + (printFields fields).length < fuel := by
      simp only [print, List.length_cons, List.length_append] at hfuel
      omega
    have hfirst := parseField_print (k := k) hv (printFields_stops fields rest)
      (by omega : _ < fuel)
    have hmore : parseFields fuel (printFields fields ++ rest) = some (fields, rest) :=
      parseFields_printFields hfields (by omega)
    rw [print, List.cons_append, List.append_assoc, List.cons_append, List.append_assoc, parse]
    · rw [hfirst]
      show (parseFields fuel (printFields fields ++ rest)).bind _ = _
      rw [hmore]
      rfl
    · intro rest' heq
      rw [printString, List.cons_append] at heq
      exact absurd (List.cons.inj heq).1 (by decide)

theorem parseItems_printItems : ∀ {vs : List Json} {fuel : Nat} {rest : List Char},
    CanonicalItems vs → (printItems vs).length ≤ fuel →
      parseItems fuel (printItems vs ++ rest) = some (vs, rest)
  | [], 0, rest, _, hfuel => by simp [printItems] at hfuel
  | [], fuel + 1, rest, _, _ => rfl
  | v :: vs, 0, rest, _, hfuel => by simp [printItems] at hfuel
  | v :: vs, fuel + 1, rest, hvs, hfuel => by
    obtain ⟨hv, hvs⟩ : v.Canonical ∧ CanonicalItems vs := hvs
    have hlen : (print v).length + (printItems vs).length ≤ fuel := by
      simp only [printItems, List.length_cons, List.length_append] at hfuel
      omega
    have hfirst := parse_print hv (printItems_stops vs rest) (by omega : _ ≤ fuel)
    have hmore : parseItems fuel (printItems vs ++ rest) = some (vs, rest) :=
      parseItems_printItems hvs (by omega)
    rw [printItems, List.cons_append, List.append_assoc, parseItems, hfirst]
    show (parseItems fuel (printItems vs ++ rest)).bind _ = _
    rw [hmore]
    rfl

theorem parseField_print : ∀ {k : String} {v : Json} {fuel : Nat} {rest : List Char},
    v.Canonical → Stops rest → (print v).length < fuel →
      parseField fuel (printString k ++ ':' :: (print v ++ rest)) = some ((k, v), rest)
  | k, v, 0, rest, _, _, hfuel => by simp at hfuel
  | k, v, fuel + 1, rest, hv, hrest, hfuel => by
    rw [parseField, readQuoted_printString]
    show (parse fuel (print v ++ rest)).map _ = _
    rw [parse_print hv hrest (by omega : _ ≤ fuel)]
    rfl

theorem parseFields_printFields : ∀ {fields : List (String × Json)} {fuel : Nat}
    {rest : List Char}, CanonicalFields fields → (printFields fields).length ≤ fuel →
      parseFields fuel (printFields fields ++ rest) = some (fields, rest)
  | [], 0, rest, _, hfuel => by simp [printFields] at hfuel
  | [], fuel + 1, rest, _, _ => rfl
  | (k, v) :: fields, 0, rest, _, hfuel => by simp [printFields] at hfuel
  | (k, v) :: fields, fuel + 1, rest, hfields, hfuel => by
    obtain ⟨hv, hfields⟩ : v.Canonical ∧ CanonicalFields fields := hfields
    have hlen : (printString k).length + (print v).length + (printFields fields).length < fuel := by
      simp only [printFields, List.length_cons, List.length_append] at hfuel
      omega
    have hfirst := parseField_print (k := k) hv (printFields_stops fields rest)
      (by omega : _ < fuel)
    have hmore : parseFields fuel (printFields fields ++ rest) = some (fields, rest) :=
      parseFields_printFields hfields (by omega)
    rw [printFields, List.cons_append, List.append_assoc, List.cons_append, List.append_assoc,
      parseFields, hfirst]
    show (parseFields fuel (printFields fields ++ rest)).bind _ = _
    rw [hmore]
    rfl

end

/-! ## One line -/

theorem newline_not_mem_printNat (n : Nat) : '\n' ∉ printNat n := by
  intro h
  have hdigit := printNat_isDigit n _ h
  revert hdigit
  decide

mutual

theorem newline_not_mem_print : ∀ {v : Json}, v.Canonical → '\n' ∉ print v
  | .null, _ => by decide
  | .bool true, _ => by decide
  | .bool false, _ => by decide
  | .num n, _ => newline_not_mem_printNat n
  | .number text, hv => hv.elim
  | .str s, _ => newline_not_mem_printString s
  | .arr [], _ => by decide
  | .arr (v :: vs), hv => by
    obtain ⟨hv, hvs⟩ : v.Canonical ∧ CanonicalItems vs := hv
    simp [print, newline_not_mem_print hv, newline_not_mem_printItems hvs]
  | .obj [], _ => by decide
  | .obj ((k, v) :: fields), hv => by
    obtain ⟨hv, hfields⟩ : v.Canonical ∧ CanonicalFields fields := hv.2
    simp [print, newline_not_mem_printString, newline_not_mem_print hv,
      newline_not_mem_printFields hfields]

theorem newline_not_mem_printItems : ∀ {vs : List Json}, CanonicalItems vs → '\n' ∉ printItems vs
  | [], _ => by decide
  | v :: vs, hvs => by
    obtain ⟨hv, hvs⟩ : v.Canonical ∧ CanonicalItems vs := hvs
    simp [printItems, newline_not_mem_print hv, newline_not_mem_printItems hvs]

theorem newline_not_mem_printFields : ∀ {fields : List (String × Json)}, CanonicalFields fields →
    '\n' ∉ printFields fields
  | [], _ => by decide
  | (k, v) :: fields, hfields => by
    obtain ⟨hv, hfields⟩ : v.Canonical ∧ CanonicalFields fields := hfields
    simp [printFields, newline_not_mem_printString, newline_not_mem_print hv,
      newline_not_mem_printFields hfields]

end

/-- The compact text. -/
def compactJson : SerdeJson where
  toJson := fun v => String.ofList (print v)
  fromStr := fun text =>
    match parse text.toList.length text.toList with
    | some (v, rest) => if rest.all Char.isWhitespace then .ok v else .error "trailing characters"
    | none => .error "expected value"
  unexpected := fun _ => "unknown variant"
  read_back := by
    intro v hv
    have hparse : parse (print v ++ ['\n']).length (print v ++ ['\n']) = some (v, ['\n']) :=
      parse_print hv (stops_cons (by decide) []) (by simp)
    have hlist : (String.ofList (print v) ++ "\n").toList = print v ++ ['\n'] := by
      rw [String.toList_append, String.toList_ofList]
      rfl
    rw [hlist, hparse]
    rfl
  one_line := by
    intro v hv
    rw [String.toList_ofList]
    exact newline_not_mem_print hv

end Json

end OxideKv
