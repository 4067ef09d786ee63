import Mathlib.Control.Monad.Basic

/-!
# Runs from a State

Running a computation that has a state and may fail, step by step.

Operations on a document act in `ExceptT Failure (StateT σ m)`: they may fail, they change a state,
and below both lies a monad in which the libraries act. When an operation is known to succeed, and to
have no effect in that monad, then what follows it runs from the state it leaves. `run_bind_ok` is
that step, and a run of a document is computed by taking it once for each operation.

What the libraries do in their monad is not known, so there a run may have many results, or none. What
all of them have in common is said with `Always`.

## Main definitions

* `Always`: All results of a computation have a property.

## Theorems

* `run_bind_ok`: After an operation that succeeds its continuation runs from the new state.
* `run_bind_error`: After one that fails nothing more is run.
* `Always.bind`: What follows a computation has its property after each result.
* `run_read`, `run_modify`: Operations that only read the state, or only change it.
-/

namespace Restyle

variable {ε σ α β : Type} {m : Type → Type} [Monad m] [LawfulMonad m]

/-- After an operation that succeeds its continuation runs from the state it leaves. -/
theorem run_bind_ok {x : ExceptT ε (StateT σ m) α} {f : α → ExceptT ε (StateT σ m) β} {s s' : σ}
    {a : α} (h : x.run.run s = pure (.ok a, s')) : (x >>= f).run.run s = (f a).run.run s' := by
  rw [ExceptT.run_bind, StateT.run_bind, h, pure_bind]

/-- After an operation that fails its continuation is left out. -/
theorem run_bind_error {x : ExceptT ε (StateT σ m) α} (f : α → ExceptT ε (StateT σ m) β)
    {s s' : σ} {e : ε} (h : x.run.run s = pure (.error e, s')) :
    (x >>= f).run.run s = pure (.error e, s') := by
  rw [ExceptT.run_bind, StateT.run_bind, h, pure_bind]
  rfl

omit [LawfulMonad m] in
theorem run_pure (a : α) (s : σ) :
    (pure a : ExceptT ε (StateT σ m) α).run.run s = pure (.ok a, s) :=
  rfl

/-- An operation that cannot fail succeeds where failing is possible. -/
theorem run_liftM_ok {x : StateT σ m α} {s s' : σ} {a : α} (h : x.run s = pure (a, s')) :
    (liftM x : ExceptT ε (StateT σ m) α).run.run s = pure (.ok a, s') := by
  rw [ExceptT.run_liftM, StateT.run_map, h, map_pure]

/-- An operation that only reads the state leaves it as it is. -/
theorem run_read (g : σ → α) (s : σ) :
    (do return g (← get) : ExceptT ε (StateT σ m) α).run.run s = pure (.ok (g s), s) := by
  have hget : (get : ExceptT ε (StateT σ m) σ).run.run s = pure (.ok s, s) := by
    change (Except.ok <$> (get : StateT σ m σ) : StateT σ m (Except ε σ)).run s = _
    simp only [StateT.run_map, StateT.run_get, map_pure]
  rw [run_bind_ok hget, run_pure]

/-- An operation that only changes the state succeeds. -/
theorem run_modify (g : σ → σ) (s : σ) :
    (modify g : ExceptT ε (StateT σ m) PUnit).run.run s = pure (.ok (), g s) := by
  change (Except.ok <$> (modify g : StateT σ m PUnit) : StateT σ m (Except ε PUnit)).run s = _
  simp only [StateT.run_map, StateT.run_modify, map_pure]

/-- What is left of a result without the errors was a success. -/
theorem eq_ok_of_toOption {x : Except ε α} {a : α} (h : x.toOption = some a) : x = .ok a := by
  cases x with
  | error e => exact absurd h (Option.some_ne_none a).symm
  | ok b => rw [Option.some.inj h]

/-- Where each value is read as what it is made from, a list is read as what its values are made
    from. -/
theorem mapM_eq_some_iff {f : α → Option β} {g : β → α} (h : ∀ a b, f a = some b ↔ a = g b)
    {xs : List α} {ys : List β} : xs.mapM f = some ys ↔ xs = ys.map g := by
  induction xs generalizing ys with
  | nil => cases ys <;> simp
  | cons x xs ih =>
      rw [List.mapM_cons]
      cases ys with
      | nil => simp [Option.bind_eq_some_iff]
      | cons y ys =>
          simp only [Option.bind_eq_bind, Option.bind_eq_some_iff, h, ih, Option.pure_def,
            Option.some.injEq, List.map_cons, List.cons.injEq]
          constructor
          · rintro ⟨_, hx, _, hxs, rfl, rfl⟩
            exact ⟨hx, hxs⟩
          · rintro ⟨hx, hxs⟩
            exact ⟨y, hx, ys, hxs, rfl, rfl⟩

/-- All results of a computation have a property. -/
def Always {m : Type → Type} [Functor m] (x : m α) (P : α → Prop) : Prop :=
  ∃ y : m {a // P a}, Subtype.val <$> y = x

theorem always_pure {a : α} {P : α → Prop} (h : P a) : Always (pure a : m α) P :=
  ⟨pure ⟨a, h⟩, map_pure _ _⟩

/-- What a function gives for every argument, it gives for every result of a computation. -/
theorem always_map {f : α → β} {P : β → Prop} (h : ∀ a, P (f a)) (x : m α) :
    Always (f <$> x) P :=
  ⟨(fun a => ⟨f a, h a⟩) <$> x, Functor.map_map _ _ x⟩

/-- What a function gives for each argument with a property, it gives for the results that have it. -/
theorem Always.map {x : m α} {f : α → β} {P : α → Prop} {Q : β → Prop} (h : Always x P)
    (hf : ∀ a, P a → Q (f a)) : Always (f <$> x) Q := by
  rcases h with ⟨y, rfl⟩
  refine ⟨(fun a => ⟨f a.1, hf a.1 a.2⟩) <$> y, ?_⟩
  rw [Functor.map_map, Functor.map_map]

/-- What follows a computation has its property after each result. -/
theorem Always.bind {x : m α} {f : α → m β} {P : α → Prop} {Q : β → Prop} (h : Always x P)
    (hf : ∀ a, P a → Always (f a) Q) : Always (x >>= f) Q := by
  rcases h with ⟨y, rfl⟩
  refine ⟨y >>= fun a => (hf a.1 a.2).choose, ?_⟩
  have hchosen : ∀ a : {a // P a}, Subtype.val <$> (hf a.1 a.2).choose = f a.1 :=
    fun a => (hf a.1 a.2).choose_spec
  simp only [map_bind, bind_map_left, hchosen]

end Restyle
