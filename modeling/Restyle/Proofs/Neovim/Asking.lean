import Mathlib.Control.Monad.Basic
import Restyle.Neovim.Request

/-!
# Asking

What comes of a request, given the answer to it.

Whoever asks wants a value of a certain kind. The answer may be a refusal, which is a failure. A value of
another kind than the documented one would be a failure, too, though no editor is known to answer so. What
comes of a request is then a function of its answer. `heard` is this function. It does not matter who
answers: `run_ask` holds for every way to ask, and `run_ask_serve` is the case of an editor that is a state
and has an answer to each request in each state.

## Main definitions

* `heard`: What comes of the answer to a request.
* `serve`: Asking an editor that has a state.

## Theorems

* `run_ask`: Asking is hearing the answer.
* `run_ask_serve`: Asking an editor that has a state leaves the state that it comes to.
-/

namespace Restyle.Neovim

variable {m : Type → Type} [Monad m] {α : Type}

/-- What comes of the answer to a request for a value of a certain kind. -/
def heard (activity : Option Activity) (content : Value → Option α) :
    Except RpcError Value → Except Failure α
  | .error cause => .error (.request activity cause)
  | .ok value =>
    match content value with
    | some a => .ok a
    | none => .error (.unexpectedReply activity)

/-- Asking an editor that has a state. -/
def serve {σ : Type} {m : Type → Type} [Monad m]
    (answer : σ → Request → Except RpcError Value × σ) : Rpc (StateT σ m) :=
  fun r => modifyGet (answer · r)

theorem heard_of_content {activity : Option Activity} {content : Value → Option α} {value : Value}
    {a : α} (h : content value = some a) : heard activity content (.ok value) = .ok a := by
  simp only [heard, h]

/-- Only a value of the kind that is asked for is heard. -/
theorem content_of_heard {activity : Option Activity} {content : Value → Option α}
    {answer : Except RpcError Value} {a : α} (h : heard activity content answer = .ok a) :
    ∃ value, answer = .ok value ∧ content value = some a := by
  cases answer with
  | error cause => cases h
  | ok value =>
      simp only [heard] at h
      cases hcontent : content value with
      | none =>
          rw [hcontent] at h
          cases h
      | some a' =>
          rw [hcontent] at h
          cases h
          exact ⟨value, rfl, hcontent⟩

variable [LawfulMonad m]

theorem run_ask (rpc : Rpc m) (activity : Option Activity) (request : Request)
    (content : Value → Option α) :
    (rpc.ask activity request content).run = heard activity content <$> rpc request := by
  unfold Rpc.ask
  rw [ExceptT.run_mk, map_eq_pure_bind]
  refine bind_congr fun answer => ?_
  cases answer with
  | error cause => rfl
  | ok value =>
      simp only [heard]
      cases content value with
      | none => rfl
      | some a => rfl

/-- Asking an editor that has a state leaves the state that it comes to. -/
theorem run_ask_serve {σ : Type} (answer : σ → Request → Except RpcError Value × σ) (s : σ)
    (activity : Option Activity) (request : Request) (content : Value → Option α) :
    (Rpc.ask (serve (m := m) answer) activity request content).run.run s =
      pure (heard activity content (answer s request).1, (answer s request).2) := by
  -- Asking such an editor has no effect in the monad below.
  have hserve : (serve (m := m) answer request).run s = pure (answer s request) := rfl
  rw [run_ask, StateT.run_map, hserve, map_pure]

end Restyle.Neovim
