import Mathlib.Data.List.Basic
import Mathlib.Tactic.Common
import Std.Data.TreeMap.Lemmas

/-!
# Checks that stop at the first failure

A check looks at data and passes, reports a violation, or panics on the way
there.  `forEach` runs a check on the items of a list and stops at the first
one that does not pass; `forPairs` does so on the pairs of a list, in the order
of two nested loops.

A pass says that every item passes (`forEach_eq_pass_iff`,
`forPairs_eq_pass_iff`).  Anything else is what the check says of one item, with
all items before it passed (`forEach_eq_iff`); on the rows of a sorted map that
is the lowest key that fails (`forEach_toList_eq_iff`).

`groupByKey` collects the values of a list of pairs under their keys, in the
order of the list.
-/

namespace Checks

/-- What a check says. -/
inductive Verdict (V : Type) where
  | pass
  | fail (v : V)
  | panic
deriving Repr, DecidableEq

variable {α β κ V : Type}

namespace Verdict

/-- The second check runs when the first one passes. -/
def andThen : Verdict V → Verdict V → Verdict V
  | .pass, r => r
  | .fail v, _ => .fail v
  | .panic, _ => .panic

theorem andThen_eq_pass_iff {r r' : Verdict V} :
    r.andThen r' = .pass ↔ r = .pass ∧ r' = .pass := by
  cases r <;> simp [andThen]

theorem andThen_of_ne_pass {r : Verdict V} (h : r ≠ .pass) (r' : Verdict V) :
    r.andThen r' = r := by
  cases r with
  | pass => exact absurd rfl h
  | fail v => rfl
  | panic => rfl

theorem andThen_eq_iff {r r' v : Verdict V} (hv : v ≠ .pass) :
    r.andThen r' = v ↔ r = v ∨ r = .pass ∧ r' = v := by
  by_cases h : r = .pass
  · subst h
    simp [andThen, hv.symm]
  · rw [andThen_of_ne_pass h]
    simp [h]

end Verdict

/-! ## One item after the other -/

/-- The check of every item, up to the first that does not pass. -/
def forEach (check : α → Verdict V) : List α → Verdict V
  | [] => .pass
  | a :: rest => (check a).andThen (forEach check rest)

section ForEach

variable {check : α → Verdict V} {l : List α}

theorem forEach_eq_pass_iff : forEach check l = .pass ↔ ∀ a ∈ l, check a = .pass := by
  induction l with
  | nil => simp [forEach]
  | cons a rest ih => simp [forEach, Verdict.andThen_eq_pass_iff, ih]

/-- What is not a pass is the verdict on the first item that does not pass. -/
theorem forEach_eq_iff {v : Verdict V} (hv : v ≠ .pass) :
    forEach check l = v ↔
      ∃ l₁ a l₂, l = l₁ ++ a :: l₂ ∧ (∀ x ∈ l₁, check x = .pass) ∧ check a = v := by
  induction l with
  | nil => simp [forEach, hv.symm]
  | cons a rest ih =>
    rw [forEach, Verdict.andThen_eq_iff hv, ih]
    constructor
    · rintro (ha | ⟨ha, l₁, b, l₂, rfl, hpass, hb⟩)
      · exact ⟨[], a, rest, rfl, by simp, ha⟩
      · refine ⟨a :: l₁, b, l₂, rfl, ?_, hb⟩
        simpa [ha] using hpass
    · rintro ⟨l₁, b, l₂, heq, hpass, hb⟩
      cases l₁ with
      | nil =>
        obtain ⟨rfl, -⟩ := List.cons.inj heq
        exact Or.inl hb
      | cons c l₁ =>
        obtain ⟨rfl, rfl⟩ := List.cons.inj heq
        have hrest : ∀ x ∈ l₁, check x = .pass := fun x hx => hpass x (List.mem_cons_of_mem _ hx)
        exact Or.inr ⟨hpass a List.mem_cons_self, l₁, b, l₂, rfl, hrest, hb⟩

end ForEach

/-! ## Every pair -/

/-- The check of every pair of an item and a later one. -/
def forPairs (check : α → α → Verdict V) : List α → Verdict V
  | [] => .pass
  | a :: rest => (forEach (check a) rest).andThen (forPairs check rest)

section ForPairs

variable {check : α → α → Verdict V} {l : List α}

theorem forPairs_eq_pass_iff :
    forPairs check l = .pass ↔ l.Pairwise fun a b => check a b = .pass := by
  induction l with
  | nil => simp [forPairs]
  | cons a rest ih =>
    rw [forPairs, Verdict.andThen_eq_pass_iff, forEach_eq_pass_iff, ih, List.pairwise_cons]

end ForPairs

/-! ## The rows of a map -/

section Rows

open Std (TreeMap)

variable [Ord κ] [Std.TransOrd κ] [Std.LawfulEqOrd κ] {m : TreeMap κ β} {check : κ × β → Verdict V}

theorem forEach_toList_eq_pass_iff :
    forEach check m.toList = .pass ↔ ∀ k b, m[k]? = some b → check (k, b) = .pass := by
  rw [forEach_eq_pass_iff]
  constructor
  · intro h k b hb
    exact h (k, b) (TreeMap.mem_toList_iff_getElem?_eq_some.mpr hb)
  · rintro h ⟨k, b⟩ hmem
    exact h k b (TreeMap.mem_toList_iff_getElem?_eq_some.mp hmem)

/-- The rows come in the order of their keys, so what is reported is of the
lowest key that does not pass. -/
theorem forEach_toList_eq_iff {v : Verdict V} (hv : v ≠ .pass) :
    forEach check m.toList = v ↔ ∃ k b, m[k]? = some b ∧ check (k, b) = v ∧
      ∀ k' b', compare k' k = .lt → m[k']? = some b' → check (k', b') = .pass := by
  have hordered : m.toList.Pairwise fun a b => compare a.1 b.1 = .lt := TreeMap.ordered_keys_toList
  rw [forEach_eq_iff hv]
  constructor
  · rintro ⟨l₁, ⟨k, b⟩, l₂, hlist, hpass, hcheck⟩
    rw [hlist, List.pairwise_append, List.pairwise_cons] at hordered
    have hmem : (k, b) ∈ m.toList := by simp [hlist]
    refine ⟨k, b, TreeMap.mem_toList_iff_getElem?_eq_some.mp hmem, hcheck,
      fun k' b' hlt hb' => ?_⟩
    have hmem' := TreeMap.mem_toList_iff_getElem?_eq_some.mpr hb'
    rw [hlist] at hmem'
    rcases List.mem_append.mp hmem' with h₁ | h₂
    · exact hpass _ h₁
    · rcases List.mem_cons.mp h₂ with heq | h₂
      · obtain ⟨rfl, -⟩ := Prod.mk.inj heq
        rw [Std.ReflOrd.compare_self] at hlt
        cases hlt
      · have hgt : compare k k' = .lt := hordered.2.1.1 _ h₂
        have hself := Std.TransCmp.lt_trans hgt hlt
        rw [Std.ReflOrd.compare_self] at hself
        cases hself
  · rintro ⟨k, b, hb, hcheck, hlow⟩
    obtain ⟨l₁, l₂, hlist⟩ :=
      List.append_of_mem (TreeMap.mem_toList_iff_getElem?_eq_some.mpr hb)
    refine ⟨l₁, (k, b), l₂, hlist, fun x hx => ?_, hcheck⟩
    have hmem : x ∈ m.toList := by
      rw [hlist]
      exact List.mem_append_left _ hx
    rw [hlist, List.pairwise_append] at hordered
    exact hlow x.1 x.2 (hordered.2.2 x hx _ List.mem_cons_self)
      (TreeMap.mem_toList_iff_getElem?_eq_some.mp hmem)

end Rows

/-! ## Values under their keys -/

section Groups

open Std (TreeMap)

variable [Ord κ] [Std.TransOrd κ] [Std.LawfulEqOrd κ] [DecidableEq κ]

/-- The values of the list under their keys, each group in the order of the
list. -/
def groupByKey (l : List (κ × α)) : TreeMap κ (List α) :=
  l.foldl (fun m e => m.insert e.1 (m[e.1]?.getD [] ++ [e.2])) ∅

/-- The values of a key. -/
def valuesOf (k : κ) (l : List (κ × α)) : List α := (l.filter fun e => e.1 = k).map Prod.snd

theorem getElem?_foldl_group (k : κ) (l : List (κ × α)) :
    ∀ m : TreeMap κ (List α),
      (l.foldl (fun m e => m.insert e.1 (m[e.1]?.getD [] ++ [e.2])) m)[k]? =
        if valuesOf k l = [] then m[k]? else some (m[k]?.getD [] ++ valuesOf k l) := by
  induction l with
  | nil => exact fun m => rfl
  | cons e l ih =>
    intro m
    rw [List.foldl_cons, ih, TreeMap.getElem?_insert]
    by_cases hk : e.1 = k
    · subst hk
      have hcons : valuesOf e.1 (e :: l) = e.2 :: valuesOf e.1 l := by simp [valuesOf]
      rw [hcons]
      by_cases hnil : valuesOf e.1 l = [] <;> simp [hnil]
    · have hcons : valuesOf k (e :: l) = valuesOf k l := by simp [valuesOf, hk]
      have hcmp : compare e.1 k ≠ .eq := fun h => hk (Std.LawfulEqOrd.eq_of_compare h)
      rw [hcons]
      simp [hcmp]

/-- A group is what the list holds under the key; there is none where it holds
nothing. -/
theorem getElem?_groupByKey (k : κ) (l : List (κ × α)) :
    (groupByKey l)[k]? = if valuesOf k l = [] then none else some (valuesOf k l) := by
  rw [groupByKey, getElem?_foldl_group]
  simp

theorem groupByKey_eq_some_iff {k : κ} {group : List α} {l : List (κ × α)} :
    (groupByKey l)[k]? = some group ↔ group = valuesOf k l ∧ group ≠ [] := by
  rw [getElem?_groupByKey]
  split_ifs with hnil
  · simp [hnil]
  · constructor
    · rintro h
      obtain rfl := Option.some.inj h
      exact ⟨rfl, hnil⟩
    · rintro ⟨rfl, -⟩
      rfl

end Groups

end Checks
