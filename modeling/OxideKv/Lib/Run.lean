import Mathlib.Data.List.Induction

/-!
# Runs of a partial step function

`run step s es` takes the steps `es` from `s` one after the other, and is
`none` when one of them is not possible.  `Along step P s es` says that every
step of that run meets `P` in the state it is taken in.

`run_invariant` carries an invariant through a run, `run_rel` a relation
between its first and its last state, and `run_history` a property of the
state and of the steps that led to it.  All three read the condition on the
steps off `Along`.  `countSteps` counts the steps of a kind.  Where a condition on the steps is not only enough but
needed, `run_keeps_iff` says so of the whole run.
-/

namespace Run

variable {σ ε : Type} {step : σ → ε → Option σ} {P Q : σ → ε → Prop}

/-- The steps `es` from `s`. -/
def run (step : σ → ε → Option σ) : σ → List ε → Option σ
  | s, [] => some s
  | s, e :: es => (step s e).bind (run step · es)

/-- Every step of the run meets `P`. -/
def Along (step : σ → ε → Option σ) (P : σ → ε → Prop) : σ → List ε → Prop
  | _, [] => True
  | s, e :: es => P s e ∧ ∀ s', step s e = some s' → Along step P s' es

instance decidableAlong [∀ s e, Decidable (P s e)] :
    (es : List ε) → (s : σ) → Decidable (Along step P s es)
  | [], _ => .isTrue trivial
  | e :: es, s =>
      match h : step s e with
      | none => decidable_of_iff (P s e) ⟨fun hP => ⟨hP, fun s' hs' => by cases h ▸ hs'⟩, And.left⟩
      | some t =>
          have := decidableAlong es t
          decidable_of_iff (P s e ∧ Along step P t es)
            ⟨fun hP => ⟨hP.1, fun s' hs' => Option.some.inj (h ▸ hs') ▸ hP.2⟩,
              fun hP => ⟨hP.1, hP.2 t h⟩⟩

theorem run_cons_eq_some {s s' : σ} {e : ε} {es : List ε} :
    run step s (e :: es) = some s' ↔
      ∃ t, step s e = some t ∧ run step t es = some s' := by
  rw [run, Option.bind_eq_some_iff]

/-- A run from a fixed state is found by taking its steps. -/
theorem exists_run_of_any {s : σ} {es : List ε} {Q : σ → Prop} [DecidablePred Q]
    (h : (run step s es).any (fun t => decide (Q t)) = true) :
    ∃ t, run step s es = some t ∧ Q t := by
  rw [Option.any_eq_true] at h
  obtain ⟨t, ht, hQ⟩ := h
  exact ⟨t, ht, of_decide_eq_true hQ⟩

/-- A run in two parts. -/
theorem run_append_eq_some {s s' : σ} {es fs : List ε} :
    run step s (es ++ fs) = some s' ↔
      ∃ t, run step s es = some t ∧ run step t fs = some s' := by
  induction es generalizing s with
  | nil => simp [run]
  | cons e es ih =>
    simp only [List.cons_append, run_cons_eq_some, ih]
    constructor
    · rintro ⟨u, he, t, hes, hfs⟩
      exact ⟨t, ⟨u, he, hes⟩, hfs⟩
    · rintro ⟨t, ⟨u, he, hes⟩, hfs⟩
      exact ⟨u, he, t, hes, hfs⟩

theorem Along.mono (h : ∀ s e, P s e → Q s e) :
    ∀ {es : List ε} {s : σ}, Along step P s es → Along step Q s es := by
  intro es
  induction es with
  | nil => exact fun _ => trivial
  | cons e es ih =>
    rintro s ⟨hP, hrest⟩
    exact ⟨h s e hP, fun s' hs' => ih (hrest s' hs')⟩

/-- The steps of the first part of a run, and those of the second. -/
theorem Along.append {s t : σ} {es fs : List ε} (h : Along step P s (es ++ fs))
    (hrun : run step s es = some t) : Along step P s es ∧ Along step P t fs := by
  induction es generalizing s with
  | nil =>
    obtain rfl : s = t := Option.some.inj hrun
    exact ⟨trivial, h⟩
  | cons e es ih =>
    obtain ⟨u, he, hes⟩ := run_cons_eq_some.mp hrun
    obtain ⟨hP, hrest⟩ := h
    refine ⟨⟨hP, fun s' hs' => ?_⟩, (ih (hrest u he) hes).2⟩
    obtain rfl : u = s' := Option.some.inj (he ▸ hs')
    exact (ih (hrest u he) hes).1

theorem Along.left {fs : List ε} :
    ∀ {es : List ε} {s : σ}, Along step P s (es ++ fs) → Along step P s es := by
  intro es
  induction es with
  | nil => exact fun _ => trivial
  | cons e es ih =>
    rintro s ⟨hP, hrest⟩
    exact ⟨hP, fun s' hs' => ih (hrest s' hs')⟩

theorem along_of_forall (h : ∀ s e, P s e) : ∀ (es : List ε) (s : σ), Along step P s es := by
  intro es
  induction es with
  | nil => exact fun _ => trivial
  | cons e es ih => exact fun s => ⟨h s e, fun s' _ => ih s'⟩

theorem Along.trans {s t : σ} {es fs : List ε} (h : Along step P s es)
    (hrun : run step s es = some t) (h' : Along step P t fs) : Along step P s (es ++ fs) := by
  induction es generalizing s with
  | nil =>
    obtain rfl : s = t := Option.some.inj hrun
    exact h'
  | cons e es ih =>
    obtain ⟨u, he, hes⟩ := run_cons_eq_some.mp hrun
    refine ⟨h.1, fun s' hs' => ?_⟩
    obtain rfl : u = s' := Option.some.inj (he.symm.trans hs')
    exact ih (h.2 u he) hes

/-- One step more. -/
theorem along_concat_iff {s t : σ} {es : List ε} {e : ε} (hrun : run step s es = some t) :
    Along step P s (es ++ [e]) ↔ Along step P s es ∧ P t e := by
  constructor
  · intro h
    obtain ⟨hfirst, hlast⟩ := h.append hrun
    exact ⟨hfirst, hlast.1⟩
  · rintro ⟨h, hP⟩
    exact h.trans hrun ⟨hP, fun _ _ => trivial⟩

theorem Along.and : ∀ {es : List ε} {s : σ}, Along step P s es → Along step Q s es →
    Along step (fun s e => P s e ∧ Q s e) s es := by
  intro es
  induction es with
  | nil => exact fun _ _ => trivial
  | cons e es ih =>
    rintro s ⟨hP, hPs⟩ ⟨hQ, hQs⟩
    exact ⟨⟨hP, hQ⟩, fun s' hs' => ih (hPs s' hs') (hQs s' hs')⟩

/-- A condition on the steps alone beside one on the states they are taken in. -/
theorem Along.and_forall {R : ε → Prop} : ∀ {es : List ε} {s : σ}, Along step P s es →
    (∀ e ∈ es, R e) → Along step (fun s e => P s e ∧ R e) s es := by
  intro es
  induction es with
  | nil => exact fun _ _ => trivial
  | cons e es ih =>
    rintro s ⟨hP, hrest⟩ hR
    exact ⟨⟨hP, hR e List.mem_cons_self⟩, fun s' hs' =>
      ih (hrest s' hs') fun e' he' => hR e' (List.mem_cons_of_mem e he')⟩

/-- A condition on the steps alone, of the steps of a run. -/
theorem Along.forall_mem {R : ε → Prop} : ∀ {es : List ε} {s t : σ},
    Along step (fun _ e => R e) s es → run step s es = some t → ∀ e ∈ es, R e := by
  intro es
  induction es with
  | nil => exact fun _ _ e he => absurd he List.not_mem_nil
  | cons e es ih =>
    rintro s t ⟨hR, hrest⟩ hrun e' he'
    obtain ⟨u, hu, hes⟩ := run_cons_eq_some.mp hrun
    rcases List.mem_cons.mp he' with rfl | he'
    · exact hR
    · exact ih (hrest u hu) hes e' he'

/-- Steps of a measure that goes down lead to `D`. -/
theorem exists_run_of_variant {I : Nat → σ → Prop} {D : σ → Prop}
    (hstep : ∀ {w : Nat} {s : σ}, I w s → ¬D s →
      ∃ w' < w, ∃ es t, run step s es = some t ∧ Along step P s es ∧ I w' t) :
    ∀ {w : Nat} {s : σ}, I w s → ∃ es t, run step s es = some t ∧ Along step P s es ∧ D t := by
  intro w
  induction w using Nat.strongRecOn with
  | ind w ih =>
    intro s hI
    by_cases hD : D s
    · exact ⟨[], s, rfl, trivial, hD⟩
    · obtain ⟨w', hlt, es, t, hrun, halong, hI'⟩ := hstep hI hD
      obtain ⟨fs, u, hrun', halong', hD'⟩ := ih w' hlt hI'
      exact ⟨es ++ fs, u, run_append_eq_some.mpr ⟨t, hrun, hrun'⟩, halong.trans hrun halong', hD'⟩

/-- What every step keeps, every run keeps. -/
theorem run_invariant {I : σ → Prop}
    (hstep : ∀ {s s' : σ} {e : ε}, I s → P s e → step s e = some s' → I s') :
    ∀ {es : List ε} {s s' : σ}, I s → Along step P s es → run step s es = some s' → I s' := by
  intro es
  induction es with
  | nil =>
    intro s s' hI _ hrun
    obtain rfl : s = s' := Option.some.inj hrun
    exact hI
  | cons e es ih =>
    rintro s s' hI ⟨hP, hrest⟩ hrun
    obtain ⟨t, he, hes⟩ := run_cons_eq_some.mp hrun
    exact ih (hstep hI hP he) (hrest t he) hes

/-- A run whose steps are all possible is possible. -/
theorem run_total {I : σ → Prop}
    (hstep : ∀ {s : σ} {e : ε}, I s → P s e → ∃ s', step s e = some s' ∧ I s') :
    ∀ {es : List ε} {s : σ}, I s → Along step P s es → ∃ s', run step s es = some s' ∧ I s' := by
  intro es
  induction es with
  | nil => exact fun hI _ => ⟨_, rfl, hI⟩
  | cons e es ih =>
    rintro s hI ⟨hP, hrest⟩
    obtain ⟨t, ht, hIt⟩ := hstep hI hP
    obtain ⟨s', hrun, hI'⟩ := ih hIt (hrest t ht)
    exact ⟨s', run_cons_eq_some.mpr ⟨t, ht, hrun⟩, hI'⟩

/-- A property that a step keeps exactly when it meets `P` is kept by exactly
the runs whose steps all do.  All steps meet `D`. -/
theorem run_keeps_iff {D : σ → ε → Prop} {I Q : σ → Prop}
    (hstep : ∀ {s s' : σ} {e : ε}, I s → D s e → step s e = some s' →
      I s' ∧ (Q s' ↔ Q s ∧ P s e)) :
    ∀ {es : List ε} {s s' : σ}, I s → Along step D s es → run step s es = some s' →
      I s' ∧ (Q s' ↔ Q s ∧ Along step P s es) := by
  intro es
  induction es with
  | nil =>
    intro s s' hI _ hrun
    obtain rfl : s = s' := Option.some.inj hrun
    exact ⟨hI, by simp [Along]⟩
  | cons e es ih =>
    rintro s s' hI ⟨hD, hDs⟩ hrun
    obtain ⟨t, he, hes⟩ := run_cons_eq_some.mp hrun
    obtain ⟨ht, hfirst⟩ := hstep hI hD he
    obtain ⟨hs', hrest⟩ := ih ht (hDs t he) hes
    refine ⟨hs', ?_⟩
    rw [hrest, hfirst, and_assoc]
    apply and_congr_right
    intro _
    constructor
    · rintro ⟨hP, halong⟩
      refine ⟨hP, fun u hu => ?_⟩
      obtain rfl : t = u := Option.some.inj (he.symm.trans hu)
      exact halong
    · rintro ⟨hP, halong⟩
      exact ⟨hP, halong t he⟩

/-- In a run that keeps `I`, the steps that meet `P` meet `Q`. -/
theorem Along.of_invariant {I : σ → Prop}
    (hstep : ∀ {s s' : σ} {e : ε}, I s → P s e → step s e = some s' → I s')
    (h : ∀ {s : σ} {e : ε}, I s → P s e → Q s e) :
    ∀ {es : List ε} {s : σ}, I s → Along step P s es → Along step Q s es := by
  intro es
  induction es with
  | nil => exact fun _ _ => trivial
  | cons e es ih =>
    rintro s hI ⟨hP, hrest⟩
    exact ⟨h hI hP, fun t ht => ih (hstep hI hP ht) (hrest t ht)⟩

/-- A reflexive and transitive relation that every step respects holds
between the first and the last state of a run. -/
theorem run_rel {I : σ → Prop} {R : σ → σ → Prop} (hrefl : ∀ s, R s s)
    (htrans : ∀ {s t u}, R s t → R t u → R s u)
    (hstep : ∀ {s s' : σ} {e : ε}, I s → P s e → step s e = some s' → I s' ∧ R s s')
    {es : List ε} {s s' : σ} (hI : I s) (hP : Along step P s es)
    (hrun : run step s es = some s') : R s s' := by
  induction es generalizing s with
  | nil =>
    obtain rfl : s = s' := Option.some.inj hrun
    exact hrefl s
  | cons e es ih =>
    obtain ⟨hPe, hrest⟩ := hP
    obtain ⟨t, he, hes⟩ := run_cons_eq_some.mp hrun
    obtain ⟨ht, hR⟩ := hstep hI hPe he
    exact htrans hR (ih ht (hrest t he) hes)

/-- A property of the steps taken so far and of the state they lead to. -/
theorem run_history {H : List ε → σ → Prop} {s : σ} (hnil : H [] s)
    (hstep : ∀ {es : List ε} {t t' : σ} {e : ε}, run step s es = some t → H es t → P t e →
      step t e = some t' → H (es ++ [e]) t') :
    ∀ {es : List ε} {t : σ}, Along step P s es → run step s es = some t → H es t := by
  intro es
  induction es using List.reverseRecOn with
  | nil =>
    intro t _ hrun
    obtain rfl : s = t := Option.some.inj hrun
    exact hnil
  | append_singleton es e ih =>
    intro t halong hrun
    obtain ⟨u, hes, he⟩ := run_append_eq_some.mp hrun
    obtain ⟨t', hstep', hlast⟩ := run_cons_eq_some.mp he
    obtain rfl : t' = t := Option.some.inj hlast
    obtain ⟨hfirst, hrest⟩ := halong.append hes
    exact hstep hes (ih hfirst hes) hrest.1 hstep'

/-- What is checked of every state of a run. -/
def Throughout (step : σ → ε → Option σ) (I : σ → Bool) : σ → List ε → Bool
  | s, [] => I s
  | s, e :: es => I s && ((step s e).all fun t => Throughout step I t es)

/-- `t` is a state of the run. -/
def Visits (step : σ → ε → Option σ) (s : σ) (es : List ε) (t : σ) : Prop :=
  ∃ es₁ es₂, es = es₁ ++ es₂ ∧ run step s es₁ = some t

theorem Throughout.of_visits {I : σ → Bool} {t : σ} : ∀ {es : List ε} {s : σ},
    Throughout step I s es = true → Visits step s es t → I t = true := by
  intro es
  induction es with
  | nil =>
    rintro s hI ⟨es₁, es₂, hes, hrun⟩
    obtain ⟨rfl, -⟩ := List.append_eq_nil_iff.mp hes.symm
    obtain rfl : s = t := Option.some.inj hrun
    exact hI
  | cons e es ih =>
    rintro s hI ⟨es₁, es₂, hes, hrun⟩
    simp only [Throughout, Bool.and_eq_true, Option.all_eq_true] at hI
    cases es₁ with
    | nil =>
      obtain rfl : s = t := Option.some.inj hrun
      exact hI.1
    | cons e' es₁ =>
      obtain ⟨rfl, rfl⟩ := List.cons.inj hes
      obtain ⟨u, he, hu⟩ := run_cons_eq_some.mp hrun
      exact ih (hI.2 u he) ⟨es₁, es₂, rfl, hu⟩

/-- The run takes the step `e` from `t` to `t'`. -/
def Takes (step : σ → ε → Option σ) (s : σ) (es : List ε) (t : σ) (e : ε) (t' : σ) : Prop :=
  ∃ es₁ es₂, es = es₁ ++ e :: es₂ ∧ run step s es₁ = some t ∧ step t e = some t'

theorem takes_last {s t t' : σ} {es : List ε} {e : ε} (hrun : run step s es = some t)
    (h : step t e = some t') : Takes step s (es ++ [e]) t e t' :=
  ⟨es, [], rfl, hrun, h⟩

theorem Takes.append {s t t' : σ} {es : List ε} {e : ε} (h : Takes step s es t e t')
    (fs : List ε) : Takes step s (es ++ fs) t e t' := by
  obtain ⟨es₁, es₂, rfl, hrun, hstep⟩ := h
  exact ⟨es₁, es₂ ++ fs, by simp, hrun, hstep⟩

/-- How many steps of the run meet `P`. -/
def countSteps (step : σ → ε → Option σ) (P : σ → ε → Bool) : σ → List ε → Nat
  | _, [] => 0
  | s, e :: es => (if P s e then 1 else 0) + (step s e).elim 0 (countSteps step P · es)

/-- One step more. -/
theorem countSteps_concat {P : σ → ε → Bool} {t : σ} {e : ε} :
    ∀ {es : List ε} {s : σ}, run step s es = some t →
      countSteps step P s (es ++ [e]) = countSteps step P s es + if P t e then 1 else 0 := by
  intro es
  induction es with
  | nil =>
    intro s hrun
    obtain rfl : s = t := Option.some.inj hrun
    rw [List.nil_append, countSteps, countSteps]
    cases step s e <;> exact Nat.add_comm _ _
  | cons e' es ih =>
    intro s hrun
    obtain ⟨u, hu, hes⟩ := run_cons_eq_some.mp hrun
    rw [List.cons_append, countSteps, countSteps, hu, Option.elim_some, Option.elim_some, ih hes,
      Nat.add_assoc]

/-- A simulation of one system by another carries over to runs: where each step
is matched by some steps that meet `Q`, a run is matched by a run. -/
theorem run_simulates {τ δ : Type} {step' : τ → δ → Option τ} {Q : τ → δ → Prop}
    {R : σ → τ → Prop}
    (hstep : ∀ {s s' : σ} {t : τ} {e : ε}, R s t → P s e → step s e = some s' →
      ∃ fs t', run step' t fs = some t' ∧ Along step' Q t fs ∧ R s' t') :
    ∀ {es : List ε} {s s' : σ} {t : τ}, R s t → Along step P s es → run step s es = some s' →
      ∃ fs t', run step' t fs = some t' ∧ Along step' Q t fs ∧ R s' t' := by
  intro es
  induction es with
  | nil =>
    intro s s' t hR _ hrun
    obtain rfl : s = s' := Option.some.inj hrun
    exact ⟨[], t, rfl, trivial, hR⟩
  | cons e es ih =>
    rintro s s' t hR ⟨hP, hrest⟩ hrun
    obtain ⟨u, he, hes⟩ := run_cons_eq_some.mp hrun
    obtain ⟨fs, v, hfs, halong, hRv⟩ := hstep hR hP he
    obtain ⟨gs, t', hgs, halong', hR'⟩ := ih hRv (hrest u he) hes
    exact ⟨fs ++ gs, t', run_append_eq_some.mpr ⟨v, hfs, hgs⟩, halong.trans hfs halong', hR'⟩

end Run
