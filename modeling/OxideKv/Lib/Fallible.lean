import Mathlib.Tactic.Common

/-!
# Methods over a faulty device

A method of an object that does input and output returns a result and keeps
the object, also when it fails half-way.  `Io σ α` is such a method, over an
object of type `σ`.

A device decides which of its operations fail.  Its decisions are a list that
the object carries: `fileOp` takes the next one, and an empty list means that
every later operation of the device succeeds.  A run with failures and a run without any are
then runs of the same program.  The rules of the first group are for the runs
without: `bind_ok` runs a method up to its first result, and `fileOp_ok` is the
operation that succeeds.  `Keeps` and `Commutes` and their rules are for every
run: they say what a method leaves alone wherever it fails, and what it does
not look at.
-/

namespace Fallible

/-- What a failed operation reports. -/
inductive IoError where
  | fault
  | notFound
deriving Repr, DecidableEq

/-- A device of an object: the outcomes of its operations to come, where
`true` is a failure. -/
structure Device (σ : Type) where
  faults : σ → List Bool
  setFaults : List Bool → σ → σ

/-- A method that returns a result and keeps the object. -/
abbrev Io (σ α : Type) := ExceptT IoError (StateM σ) α

variable {σ α β : Type}

/-- One operation of the device. -/
def fileOp (d : Device σ) : Io σ Unit := fun s =>
  match d.faults s with
  | [] => (.ok (), s)
  | false :: rest => (.ok (), d.setFaults rest s)
  | true :: rest => (.error .fault, d.setFaults rest s)

/-- The result is dropped, the object is kept. -/
def ignoreErr (x : Io σ Unit) : Io σ Unit := fun s => (.ok (), (x s).2)

/-- A computation that does not touch the object. -/
def pureResult (x : Except IoError α) : Io σ α := fun s => (x, s)

section Run

variable {s s' : σ}

theorem bind_ok {x : Io σ α} {f : α → Io σ β} {a : α} (h : x s = (.ok a, s')) :
    (x >>= f) s = f a s' := by
  show ExceptT.bind x f s = f a s'
  simp only [ExceptT.bind, ExceptT.mk, bind, StateT.bind]
  rw [h]
  rfl

theorem bind_error {x : Io σ α} {f : α → Io σ β} {e : IoError} (h : x s = (.error e, s')) :
    (x >>= f) s = (.error e, s') := by
  show ExceptT.bind x f s = _
  simp only [ExceptT.bind, ExceptT.mk, bind, StateT.bind]
  rw [h]
  rfl

theorem bind_modify (g : σ → σ) (f : PUnit → Io σ β) :
    ((modify g : Io σ Unit) >>= f) s = f () (g s) := rfl

theorem bind_getThe (f : σ → Io σ β) :
    ((getThe σ : Io σ σ) >>= f) s = f s s := rfl

theorem ignoreErr_ok {x : Io σ Unit} {r : Except IoError Unit} (h : x s = (r, s')) :
    ignoreErr x s = (.ok (), s') := by
  rw [ignoreErr, h]

theorem fileOp_ok {d : Device σ} (h : d.faults s = []) :
    fileOp d s = (.ok (), s) := by
  rw [fileOp, h]

/-- A loop over operations that succeed changes nothing. -/
theorem forM_fileOp_ok {d : Device σ} (h : d.faults s = []) :
    ∀ xs : List α, (xs.forM fun _ => (fileOp d : Io σ PUnit)) s = (.ok (), s) := by
  intro xs
  induction xs with
  | nil => rfl
  | cons _ xs ih =>
    rw [List.forM, bind_ok (fileOp_ok h)]
    exact ih

end Run

/-! ## What a method leaves alone -/

section Keeps

variable {γ : Type} {f : σ → γ}

/-- The method leaves what `f` reads alone, also when it fails. -/
def Keeps (f : σ → γ) (x : Io σ α) : Prop := ∀ s, f (x s).2 = f s

theorem Keeps.bind {x : Io σ α} {g : α → Io σ β} (hx : Keeps f x) (hg : ∀ a, Keeps f (g a)) :
    Keeps f (x >>= g) := by
  intro s
  rcases hr : x s with ⟨e | a, s'⟩
  · rw [bind_error hr, ← hx s, hr]
  · rw [bind_ok hr, hg a s', ← hx s, hr]

theorem Keeps.pure (a : α) : Keeps f (pure a : Io σ α) := fun _ => rfl

theorem Keeps.getThe : Keeps f (getThe σ : Io σ σ) := fun _ => rfl

theorem Keeps.modify {g : σ → σ} (h : ∀ s, f (g s) = f s) : Keeps f (modify g : Io σ Unit) :=
  h

theorem Keeps.fileOp {d : Device σ} (h : ∀ rest s, f (d.setFaults rest s) = f s) :
    Keeps f (fileOp d) := by
  intro s
  rw [Fallible.fileOp]
  split
  · rfl
  · exact h _ s
  · exact h _ s

theorem Keeps.forM {g : α → Io σ PUnit} (hg : ∀ a, Keeps f (g a)) :
    ∀ xs : List α, Keeps f (xs.forM g) := by
  intro xs
  induction xs with
  | nil => exact Keeps.pure _
  | cons x xs ih => exact Keeps.bind (hg x) fun _ => ih

end Keeps

/-! ## What a method does not look at -/

section Commutes

variable {g : σ → σ}

/-- The method neither reads nor writes what `g` changes. -/
def Commutes (g : σ → σ) (x : Io σ α) : Prop := ∀ s, x (g s) = ((x s).1, g (x s).2)

theorem Commutes.bind {x : Io σ α} {f : α → Io σ β} (hx : Commutes g x)
    (hf : ∀ a, Commutes g (f a)) : Commutes g (x >>= f) := by
  intro s
  have hgs := hx s
  rcases hr : x s with ⟨e | a, s'⟩ <;> rw [hr] at hgs
  · rw [bind_error hr, bind_error hgs]
  · rw [bind_ok hr, bind_ok hgs, hf a s']

theorem Commutes.pure (a : α) : Commutes g (pure a : Io σ α) := fun _ => rfl

/-- A method that reads the object first. -/
theorem Commutes.getThe {f : σ → Io σ β} (hg : ∀ s, f (g s) = f s)
    (hf : ∀ s, Commutes g (f s)) : Commutes g ((getThe σ : Io σ σ) >>= f) := by
  intro s
  rw [bind_getThe, bind_getThe, hg s, hf s s]

theorem Commutes.modify {h : σ → σ} (hg : ∀ s, h (g s) = g (h s)) :
    Commutes g (modify h : Io σ Unit) := by
  intro s
  show ((.ok (), h (g s)) : Except IoError Unit × σ) = (.ok (), g (h s))
  rw [hg s]

theorem Commutes.fileOp {d : Device σ} (hfaults : ∀ s, d.faults (g s) = d.faults s)
    (hset : ∀ rest s, d.setFaults rest (g s) = g (d.setFaults rest s)) :
    Commutes g (fileOp d) := by
  intro s
  rw [Fallible.fileOp, Fallible.fileOp, hfaults s]
  split
  · rfl
  · rw [hset]
  · rw [hset]

end Commutes

end Fallible
