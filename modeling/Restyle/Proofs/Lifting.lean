import Mathlib.Control.Monad.Basic
import Restyle.Formatter

/-!
# Libraries beside a State

Libraries act in a monad of their own, and formatting adds a state to it that they do not see.

The state is a buffer, an editor at the other end of a connection, or a record of what was asked, and
in each case the same has to be known: that the pipeline leaves it alone. The libraries are lifted, so
none of their calls can reach the state. What they do in their own monad is kept, whatever it is.

## Main definitions

* `Formatter.lift`: A formatter for documents that its libraries do not see.

## Theorems

* `Pipeline.run_transform_lift`: The pipeline does not touch the state.
-/

namespace Restyle

/-- A formatter in a monad that has more effects, of which its libraries know nothing. -/
def Formatter.lift {m n : Type → Type} [MonadLiftT m n] (f : Formatter m) : Formatter n :=
  { f with libraries := f.libraries.lift }

variable {σ : Type} {m : Type → Type} [Monad m] [LawfulMonad m]

namespace Pipeline

/-- What the fixer is given does not depend on the state. -/
theorem run_preformat_lift (l : Libraries m) (text : Text) (style : Style) (usePrettier : Bool)
    (workdir : Option Path) (s : σ) :
    (preformat (l.lift : Libraries (StateT σ m)) text style usePrettier workdir).run s =
      (fun a => (a, s)) <$> preformat l text style usePrettier workdir := by
  unfold preformat
  cases usePrettier with
  | false => simp only [Bool.false_eq_true, if_false, StateT.run_pure, map_pure]
  | true =>
      simp only [if_true, Libraries.lift, StateT.run_bind, StateT.run_monadLift, monadLift_self,
        bind_pure_comp, bind_map_left, map_bind]
      -- The state is carried along both for a text and for a failure.
      refine bind_congr fun answer => ?_
      cases answer <;> simp only [StateT.run_pure, map_pure]

/-- The pipeline does not touch the state. -/
theorem run_transform_lift (l : Libraries m) (text : Text) (style : Style) (usePrettier : Bool)
    (workdir : Option Path) (s : σ) :
    (transform (l.lift : Libraries (StateT σ m)) text style usePrettier workdir).run s =
      (fun a => (a, s)) <$> transform l text style usePrettier workdir := by
  unfold transform
  cases style.package? with
  | none => simp only [StateT.run_pure, map_pure]
  | some package =>
      -- Both libraries are asked in the monad below, one after the other.
      simp only [StateT.run_bind, run_preformat_lift, bind_map_left, map_bind]
      refine bind_congr fun input => ?_
      simp only [Libraries.lift, StateT.run_monadLift, monadLift_self, bind_pure_comp,
        bind_map_left]
      refine bind_congr fun answer => ?_
      cases answer <;> simp only [StateT.run_pure, map_pure]

end Pipeline

end Restyle
