import Mathlib.Data.List.Basic
import Mathlib.Data.Option.Basic
import Mathlib.Tactic.Common

/-!
# Last-write-wins traces

A trace is a list of keys with what was written to them.  `record` is the last
write to a key.  Where a write is a value, or `none` for a removal,
`lastWrite` is the value that is left under the key.  A stack of sorted tables,
a log that is replayed and a map that is overlaid row by row are all traces in
this sense, and two of them hold the same map when their `lastWrite` agrees.

The rules are about how traces compose: `record_append` splits a trace,
`record_map` and `record_filter` change its writes, `lastWrite_append` is the
overlay rule, `lastWrite_filter_some` drops removals at the bottom, and
`lastWrite_append_of_covers` drops a lower trace whose keys are all written
again, with `lastWrite_replay` for a second pass over a prefix.  `lastWrite_merge`
is the rule for a merge that stands over a part of its own sources.
-/

namespace LastWrite

variable {K V A B : Type*} [DecidableEq K]

/-- The last write to `k`: `none` when `k` is not written. -/
def record : List (K × A) → K → Option A
  | [], _ => none
  | w :: ws, k => (record ws k).or (if w.1 = k then some w.2 else none)

/-- The value that the trace leaves under `k`. -/
def lastWrite (ws : List (K × Option V)) (k : K) : Option V := (record ws k).join

@[simp] theorem record_nil (k : K) : record ([] : List (K × A)) k = none := rfl

theorem record_cons (w : K × A) (ws : List (K × A)) (k : K) :
    record (w :: ws) k = (record ws k).or (if w.1 = k then some w.2 else none) := rfl

@[simp] theorem record_singleton (w : K × A) (k : K) :
    record [w] k = if w.1 = k then some w.2 else none := rfl

theorem record_append (xs ys : List (K × A)) (k : K) :
    record (xs ++ ys) k = (record ys k).or (record xs k) := by
  induction xs with
  | nil => simp
  | cons x xs ih =>
    rw [List.cons_append, record_cons, ih, record_cons, Option.or_assoc]

theorem record_map (g : A → B) (ws : List (K × A)) (k : K) :
    record (ws.map fun w => (w.1, g w.2)) k = (record ws k).map g := by
  induction ws with
  | nil => rfl
  | cons w ws ih =>
    rw [List.map_cons, record_cons, ih, record_cons, Option.map_or]
    by_cases h : w.1 = k <;> simp [h]

theorem record_eq_none_iff (ws : List (K × A)) (k : K) :
    record ws k = none ↔ ∀ w ∈ ws, w.1 ≠ k := by
  induction ws with
  | nil => simp
  | cons w ws ih =>
    rw [record_cons, Option.or_eq_none_iff, ih]
    by_cases h : w.1 = k <;> simp [h]

theorem mem_of_record {ws : List (K × A)} {k : K} {r : A}
    (h : record ws k = some r) : (k, r) ∈ ws := by
  induction ws with
  | nil => simp at h
  | cons w ws ih =>
    rw [record_cons, Option.or_eq_some_iff] at h
    rcases h with h | ⟨_, h⟩
    · exact List.mem_cons_of_mem _ (ih h)
    · by_cases hw : w.1 = k
      · rw [if_pos hw] at h
        obtain rfl := Option.some.inj h
        exact List.mem_cons.mpr (Or.inl (by rw [← hw]))
      · rw [if_neg hw] at h
        simp at h

/-- In a trace that writes no key twice, the record of a key is its row. -/
theorem record_eq_some_iff {ws : List (K × A)}
    (hnodup : (ws.map Prod.fst).Nodup) (k : K) (r : A) :
    record ws k = some r ↔ (k, r) ∈ ws := by
  refine ⟨mem_of_record, fun hmem => ?_⟩
  induction ws with
  | nil => simp at hmem
  | cons w ws ih =>
    rw [List.map_cons, List.nodup_cons] at hnodup
    rw [record_cons]
    rcases List.mem_cons.mp hmem with rfl | hmem
    · have hnone : record ws k = none := by
        rw [record_eq_none_iff]
        intro w hw heq
        exact hnodup.1 (List.mem_map.mpr ⟨w, hw, heq⟩)
      simp [hnone]
    · simp [ih hnodup.2 hmem]

theorem record_filter_none {p : K × A → Bool} {ws : List (K × A)} {k : K}
    (h : record ws k = none) : record (ws.filter p) k = none := by
  rw [record_eq_none_iff] at h ⊢
  exact fun w hw => h w (List.mem_of_mem_filter hw)

/-- Dropping writes to a key keeps its last write when that one stays. -/
theorem record_filter {p : K × A → Bool} {ws : List (K × A)} {k : K} {r : A}
    (h : record ws k = some r) (hp : p (k, r) = true) : record (ws.filter p) k = some r := by
  induction ws with
  | nil => simp at h
  | cons w ws ih =>
    rw [record_cons, Option.or_eq_some_iff] at h
    rw [List.filter_cons]
    rcases h with h | ⟨hnone, h⟩
    · split_ifs
      · rw [record_cons, ih h]
        rfl
      · exact ih h
    · by_cases hw : w.1 = k
      · rw [if_pos hw] at h
        obtain rfl := Option.some.inj h
        obtain rfl := hw
        rw [if_pos hp, record_cons, record_filter_none hnone]
        simp
      · simp [hw] at h

/-- The overlay rule: the upper trace decides the keys it writes. -/
theorem lastWrite_append (xs ys : List (K × Option V)) (k : K) :
    lastWrite (xs ++ ys) k = (record ys k).getD (lastWrite xs k) := by
  rw [lastWrite, record_append]
  cases record ys k <;> rfl

/-- Two lower traces with the same map stay so under a common upper trace. -/
theorem lastWrite_append_congr {xs xs' : List (K × Option V)}
    (h : ∀ k, lastWrite xs k = lastWrite xs' k) (ys : List (K × Option V)) (k : K) :
    lastWrite (xs ++ ys) k = lastWrite (xs' ++ ys) k := by
  rw [lastWrite_append, lastWrite_append, h k]

/-- Two traces with the same last record for every key hold the same map. -/
theorem lastWrite_congr {xs ys : List (K × Option V)} {k : K}
    (h : record xs k = record ys k) : lastWrite xs k = lastWrite ys k := by
  rw [lastWrite, lastWrite, h]

/-- Without repeated keys, the removals at the bottom can go. -/
theorem lastWrite_filter_some {ws : List (K × Option V)}
    (hnodup : (ws.map Prod.fst).Nodup) (k : K) :
    lastWrite (ws.filter (fun w => w.2.isSome)) k = lastWrite ws k := by
  have hsub : ((ws.filter (fun w => w.2.isSome)).map Prod.fst).Nodup :=
    hnodup.sublist (List.filter_sublist.map _)
  rw [lastWrite, lastWrite]
  cases hr : record ws k with
  | none =>
    rw [record_filter_none hr]
  | some r =>
    have hmem := (record_eq_some_iff hnodup k r).mp hr
    cases r with
    | none =>
      have hnone : record (ws.filter (fun w => w.2.isSome)) k = none := by
        rw [record_eq_none_iff]
        intro w hw hk
        obtain ⟨hw, hsome⟩ := List.mem_filter.mp hw
        have hrow : record ws k = some w.2 :=
          (record_eq_some_iff hnodup k w.2).mpr (by rw [← hk]; exact hw)
        rw [hr, Option.some.injEq] at hrow
        rw [← hrow] at hsome
        simp at hsome
      rw [hnone]
      rfl
    | some v =>
      have hrow : record (ws.filter (fun w => w.2.isSome)) k = some (some v) :=
        (record_eq_some_iff hsub k (some v)).mpr
          (List.mem_filter.mpr ⟨hmem, rfl⟩)
      rw [hrow]

/-- Nothing shows of a trace whose keys are all written again. -/
theorem lastWrite_append_of_covers {xs ys : List (K × Option V)}
    (h : ∀ w ∈ xs, record ys w.1 ≠ none) (k : K) : lastWrite (xs ++ ys) k = lastWrite ys k := by
  apply lastWrite_congr
  rw [record_append]
  cases hk : record ys k with
  | some r => rfl
  | none =>
    rw [Option.none_or, record_eq_none_iff]
    intro w hw heq
    exact h w hw (heq ▸ hk)

/-- An upper trace that only says again what the lower one says. -/
theorem lastWrite_append_of_recorded {xs ys : List (K × Option V)}
    (h : ∀ k r, record ys k = some r → record xs k = some r) (k : K) :
    lastWrite (xs ++ ys) k = lastWrite xs k := by
  apply lastWrite_congr
  rw [record_append]
  cases hk : record ys k with
  | none => rfl
  | some r => exact (h k r hk).symm

/-- A removal at the end of a trace is one at the end of its last part. -/
theorem lastWrite_append_eq_none {xs ys : List (K × Option V)} {k : K}
    (h : lastWrite (xs ++ ys) k = none) : lastWrite ys k = none := by
  rw [lastWrite_append] at h
  rw [lastWrite]
  cases hk : record ys k with
  | none => rfl
  | some r =>
    rw [hk] at h
    exact h

/-- A merge without removals over the newer part of what it was made from. -/
theorem lastWrite_merge {xs ys ms : List (K × Option V)}
    (hmerge : ∀ k, lastWrite ms k = lastWrite (xs ++ ys) k) (hsome : ∀ w ∈ ms, w.2 ≠ none) (k : K) :
    lastWrite (ys ++ ms) k = lastWrite (xs ++ ys) k := by
  rw [lastWrite_append]
  have hk := hmerge k
  rw [lastWrite] at hk
  cases hr : record ms k with
  | none =>
    rw [hr] at hk
    rw [Option.getD_none, ← hk]
    exact lastWrite_append_eq_none hk.symm
  | some r =>
    rw [hr] at hk
    cases r with
    | none => exact absurd rfl (hsome _ (mem_of_record hr))
    | some v => exact hk

/-- A key of the first part is written by the whole. -/
theorem record_append_ne_none {xs : List (K × A)} {w : K × A} (h : w ∈ xs) (ys : List (K × A)) :
    record (xs ++ ys) w.1 ≠ none := by
  rw [Ne, record_eq_none_iff]
  intro hnone
  exact hnone w (List.mem_append_left ys h) rfl

/-- A trace that is written again over a prefix of itself leaves the map of
one pass. -/
theorem lastWrite_replay (xs ys : List (K × Option V)) (k : K) :
    lastWrite (xs ++ (xs ++ ys)) k = lastWrite (xs ++ ys) k :=
  lastWrite_append_of_covers (fun _ hw => record_append_ne_none hw ys) k

end LastWrite
