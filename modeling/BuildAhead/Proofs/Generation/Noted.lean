import BuildAhead.Proofs.Generation.Running

set_option autoImplicit false

/-!
# Generation: noted actions

An action that takes down what it calls while it runs. What is noted is only added to, also by an
action that fails later, and leaving the notes out gives back an action without any.
-/

namespace BuildAhead

/-- An action that makes notes, each behind the earlier ones. What it noted before it failed
stays. -/
abbrev Noted (ν σ α : Type) : Type := ExceptT BuildError (StateM (σ × List ν)) α

namespace Noted

variable {ν σ τ α β : Type}

/-- An action that notes nothing. -/
def lift (x : ExceptT BuildError (StateM σ) α) : Noted ν σ α :=
  ExceptT.mk fun s => ((x.run.run s.1).1, (x.run.run s.1).2, s.2)

/-- An action on a state of its own, inside one on another state; both note into the same list. -/
def inside (x : Noted ν τ α) (t : τ) : Noted ν σ (Except BuildError α × τ) :=
  ExceptT.mk fun s => (.ok ((x.run.run (t, s.2)).1, (x.run.run (t, s.2)).2.1), s.1,
    (x.run.run (t, s.2)).2.2)

/-- Leaving out what the first action notes gives the second action. -/
def Erases (x : Noted ν σ α) (y : ExceptT BuildError (StateM σ) α) : Prop :=
  ∀ s notes, ((x.run.run (s, notes)).1, (x.run.run (s, notes)).2.1) = y.run.run s

namespace Erases

theorem lift (x : ExceptT BuildError (StateM σ) α) : Erases (ν := ν) (lift x) x := fun _ _ => rfl

theorem pure (a : α) : Erases (ν := ν) (σ := σ) (pure a) (pure a) := fun _ _ => rfl

theorem ofExcept (x : Except BuildError α) :
    Erases (liftM x : Noted ν σ α) (liftM x : ExceptT BuildError (StateM σ) α) := by
  intro s notes
  cases x <;> rfl

theorem bind {x : Noted ν σ α} {y : ExceptT BuildError (StateM σ) α} {f : α → Noted ν σ β}
    {g : α → ExceptT BuildError (StateM σ) β} (hxy : Erases x y) (hfg : ∀ a, Erases (f a) (g a)) :
    Erases (x >>= f) (y >>= g) := by
  intro s notes
  have hx := hxy s notes
  rw [run_bind, run_bind, ← hx]
  cases StateT.run (ExceptT.run x) (s, notes) with
  | mk result noted =>
    cases result with
    | ok a => exact hfg a noted.1 noted.2
    | error e => rfl

end Erases

end Noted

end BuildAhead
