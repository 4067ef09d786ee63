import Mathlib.Control.Monad.Basic
import Mathlib.Tactic.Choose

/-!
# Recorded Runs

Computations that keep a record of the calls they make.

What a computation asks of others, and in which order, cannot be seen from its result. It can be seen
when every call is replaced by one that also puts itself and its answer at the end of a list. That is
a different computation, so two things have to be known of it: that it is the same one apart from the
list, and what the list looks like for each of its results. `Recorded` says both at once, in any
monad: some computation yields results and calls that go together, the recording one appends these
calls to the list it is given, and the plain one forgets them.

The rules follow the way in which computations are put together. A rule for `bind` passes on what is
known of the first part, so the order of calls comes out of the order of the rules.

## Main definitions

* `record`: A call that is recorded with its answer.
* `Recorded`: A computation with its calls recorded, and what is known of them.

## Theorems

* `Recorded.map_fst_run`: Apart from the record nothing changes.
* `Recorded.bind`: The calls of one computation come before those of the next.
* `Recorded.bindExcept`: The same, where the first may fail and the next is left out then.
* `Recorded.bindLift`: The same, where the first cannot fail.
* `Recorded.of_state`: What is known of all results is known of the result from each state.
-/

namespace Restyle

variable {m : Type → Type} [Monad m] {α β κ ε : Type}

/-- A call that is recorded with its answer. -/
def record (x : m α) (call : α → κ) : StateT (List κ) m α := fun log =>
  (fun a => (a, log ++ [call a])) <$> x

/-- A computation records the calls of another, and each result goes with its calls. -/
def Recorded (x : StateT (List κ) m α) (y : m α) (P : α → List κ → Prop) : Prop :=
  ∃ z : m {r : α × List κ // P r.1 r.2},
    (∀ log, x.run log = (fun r => (r.1.1, log ++ r.1.2)) <$> z) ∧ (fun r => r.1.1) <$> z = y

variable [LawfulMonad m]

/-- One call is the whole record of itself. -/
theorem recorded_record (x : m α) (call : α → κ) :
    Recorded (record x call) x fun a log => log = [call a] := by
  refine ⟨(fun a => ⟨(a, [call a]), rfl⟩) <$> x, fun log => ?_, ?_⟩
  · rw [Functor.map_map]
    rfl
  · rw [Functor.map_map]
    exact id_map' x

theorem recorded_pure {a : α} {P : α → List κ → Prop} (h : P a []) :
    Recorded (pure a : StateT (List κ) m α) (pure a) P := by
  refine ⟨pure ⟨(a, []), h⟩, fun log => ?_, ?_⟩
  · rw [map_pure, List.append_nil, StateT.run_pure]
  · rw [map_pure]

namespace Recorded

variable {x : StateT (List κ) m α} {y : m α} {P : α → List κ → Prop}

/-- Apart from the record nothing changes. -/
theorem map_fst_run (h : Recorded x y P) (log : List κ) : Prod.fst <$> x.run log = y := by
  rcases h with ⟨z, hx, hy⟩
  rw [hx, Functor.map_map, ← hy]

theorem mono {Q : α → List κ → Prop} (h : Recorded x y P)
    (hPQ : ∀ a log, P a log → Q a log) : Recorded x y Q := by
  rcases h with ⟨z, hx, hy⟩
  refine ⟨(fun r => ⟨r.1, hPQ _ _ r.2⟩) <$> z, fun log => ?_, ?_⟩
  · rw [hx, Functor.map_map]
  · rw [Functor.map_map, hy]

/-- The calls of one computation come before those of the next. -/
theorem bind {f : α → StateT (List κ) m β} {g : α → m β} {R : β → List κ → Prop}
    (h : Recorded x y P)
    (hf : ∀ a log, P a log → Recorded (f a) (g a) fun b rest => R b (log ++ rest)) :
    Recorded (x >>= f) (y >>= g) R := by
  rcases h with ⟨z, hx, hy⟩
  -- For each result of the first part there is the computation that comes after it.
  have hnext : ∀ r : {r : α × List κ // P r.1 r.2}, _ := fun r => hf r.1.1 r.1.2 r.2
  choose w hw hgw using hnext
  -- Its calls are recorded behind those of the first part, to which they belong.
  refine ⟨z >>= fun r => (fun s => ⟨(s.1.1, r.1.2 ++ s.1.2), s.2⟩) <$> w r, fun log => ?_, ?_⟩
  · rw [StateT.run_bind, hx, bind_map_left, map_bind]
    refine bind_congr fun r => ?_
    rw [hw, Functor.map_map]
    simp only [List.append_assoc]
  · rw [map_bind, ← hy, bind_map_left]
    refine bind_congr fun r => ?_
    rw [Functor.map_map, hgw]

/-- Where the first of two computations may fail, what is known of its failures is known of the whole,
    and the calls of the next come only after a success. -/
theorem bindExcept {x : ExceptT ε (StateT (List κ) m) α} {y : ExceptT ε m α}
    {P : Except ε α → List κ → Prop} {f : α → ExceptT ε (StateT (List κ) m) β}
    {g : α → ExceptT ε m β} {R : Except ε β → List κ → Prop} (h : Recorded x.run y.run P)
    (herror : ∀ failure log, P (.error failure) log → R (.error failure) log)
    (hok : ∀ a log, P (.ok a) log →
      Recorded (f a).run (g a).run fun b rest => R b (log ++ rest)) :
    Recorded (x >>= f).run (y >>= g).run R := by
  rw [ExceptT.run_bind, ExceptT.run_bind]
  refine h.bind fun outcome log hP => ?_
  cases outcome with
  | error failure =>
      -- Nothing is left to be called.
      refine recorded_pure ?_
      rw [List.append_nil]
      exact herror failure log hP
  | ok a => exact hok a log hP

/-- Where the first of two computations cannot fail, the next always comes. -/
theorem bindLift {f : α → ExceptT ε (StateT (List κ) m) β} {g : α → ExceptT ε m β}
    {R : Except ε β → List κ → Prop} (h : Recorded x y P)
    (hf : ∀ a log, P a log → Recorded (f a).run (g a).run fun b rest => R b (log ++ rest)) :
    Recorded (liftM x >>= f).run (liftM y >>= g).run R := by
  rw [ExceptT.run_bind, ExceptT.run_bind, ExceptT.run_liftM, ExceptT.run_liftM, bind_map_left,
    bind_map_left]
  exact h.bind hf

omit [LawfulMonad m] in
/-- Where computations start from a state, what is known of all results is known of the one from each
    state. -/
theorem of_state {σ : Type} {x : StateT (List κ) (StateM σ) α} {y : StateM σ α}
    {P : α → List κ → Prop} (h : Recorded x y P) (s : σ) :
    P ((x.run []).run s).1.1 ((x.run []).run s).1.2 := by
  rcases h with ⟨z, hx, -⟩
  rw [hx]
  exact (z.run s).1.2

end Recorded

end Restyle
