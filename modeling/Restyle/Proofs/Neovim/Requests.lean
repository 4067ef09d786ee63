import Restyle.Neovim.Host
import Restyle.Proofs.Lifting
import Restyle.Proofs.Neovim.Asking
import Restyle.Proofs.Recording

/-!
# Requests Made for a Document

What is asked of a running editor while a document is opened, read, formatted and written.

Few requests mark the stages of a connection: the one for its channel, those that register the hooks
and give the registration back, the one for the current buffer, by which a command begins, and the one
that lets a write proceed. They are the milestones, and the host makes each of them itself. Everything
else is asked for some document, and of that only two requests touch a window: the one that reads its
cursor and the one that moves it.

What is neither a milestone nor about a cursor is quiet. That reading and writing are quiet is shown here
for one operation on a document after the other, whatever is answered: an operation may end after any of
its requests, but it never makes another kind of them. The operations that do look for a window or touch
its cursor come later, and build on these.

The requests are recorded with their answers by asking in a richer monad. The libraries are lifted into
it, so they make none.

## Main definitions

* `Exchange`: A request with its answer.
* `Rpc.traced`: A way to ask of which all requests are recorded.
* `Request.isMilestone`, `Routine`: The requests that mark a stage, and logs without any.
* `Request.cursorWindow?`, `Cursorless`: The requests that touch a cursor, and logs without any.
* `Quiet`: Logs with neither of the two.
* `AsksQuietly`: A computation that makes only quiet requests.

## Theorems

* `recorded_ask`: Asking makes one request, and its answer decides what comes of it.
* `asksQuietly_text`, `asksQuietly_selection`, `asksQuietly_textInRange`: Reading is quiet.
* `asksQuietly_setText`, `asksQuietly_setTextInRange`: So is writing.
-/

namespace Restyle.Neovim

/-- A request with the answer to it. -/
structure Exchange where
  request : Request
  answer : Except RpcError Value

/-- A request that marks a stage of a connection, and is not made for a document that is open. -/
def Request.isMilestone : Request → Bool
  | .apiInfo | .currentBuffer => true
  | .runScript .setup _ | .runScript .teardown _ | .runScript .releaseSave _ => true
  | _ => false

/-- Exchanges without a milestone. -/
def Routine (log : List Exchange) : Prop :=
  ∀ e ∈ log, e.request.isMilestone = false

/-- The window whose cursor a request reads or moves. -/
def Request.cursorWindow? : Request → Option WindowHandle
  | .cursor w | .setCursor w _ _ => some w
  | _ => none

/-- Exchanges that touch no cursor. -/
def Cursorless (log : List Exchange) : Prop :=
  ∀ e ∈ log, e.request.cursorWindow? = none

/-- A request that neither marks a stage nor touches a cursor. -/
def Request.isQuiet (r : Request) : Bool :=
  !r.isMilestone && r.cursorWindow?.isNone

/-- Exchanges of such requests. -/
def Quiet (log : List Exchange) : Prop :=
  ∀ e ∈ log, e.request.isQuiet = true

theorem Routine.append {a b : List Exchange} (ha : Routine a) (hb : Routine b) :
    Routine (a ++ b) :=
  List.forall_mem_append.mpr ⟨ha, hb⟩

namespace Quiet

variable {a b log : List Exchange}

theorem nil : Quiet [] :=
  fun _ h => absurd h List.not_mem_nil

theorem append (ha : Quiet a) (hb : Quiet b) : Quiet (a ++ b) :=
  List.forall_mem_append.mpr ⟨ha, hb⟩

theorem cons {e : Exchange} (he : e.request.isQuiet = true) (h : Quiet log) : Quiet (e :: log) :=
  List.forall_mem_cons.mpr ⟨he, h⟩

theorem routine (h : Quiet log) : Routine log := by
  intro e he
  have hquiet := h e he
  rw [Request.isQuiet, Bool.and_eq_true, Bool.not_eq_true'] at hquiet
  exact hquiet.1

theorem cursorless (h : Quiet log) : Cursorless log := by
  intro e he
  have hquiet := h e he
  rw [Request.isQuiet, Bool.and_eq_true, Option.isNone_iff_eq_none] at hquiet
  exact hquiet.2

end Quiet

variable {m : Type → Type} [Monad m] {α β : Type}

/-- A way to ask of which all requests are recorded. -/
def Rpc.traced (rpc : Rpc m) : Rpc (StateT (List Exchange) m) :=
  fun request => record (rpc request) fun answer => ⟨request, answer⟩

/-- A computation that makes only quiet requests, beside the one that is not recorded. -/
def AsksQuietly (x : ExceptT Failure (StateT (List Exchange) m) α) (y : ExceptT Failure m α) :
    Prop :=
  Recorded x.run y.run fun _ log => Quiet log

variable [LawfulMonad m] (rpc : Rpc m)

/-- Asking makes one request, and its answer decides what comes of it. -/
theorem recorded_ask (activity : Option Activity) (request : Request)
    (content : Value → Option α) :
    Recorded (Rpc.ask rpc.traced activity request content).run
      (rpc.ask activity request content).run fun result log =>
        ∃ answer, result = heard activity content answer ∧ log = [⟨request, answer⟩] := by
  rw [run_ask, run_ask, map_eq_pure_bind, map_eq_pure_bind]
  refine Recorded.bind (recorded_record (rpc request) _) ?_
  rintro answer _ rfl
  exact recorded_pure ⟨answer, rfl, rfl⟩

namespace AsksQuietly

theorem pure (a : α) :
    AsksQuietly (Pure.pure a : ExceptT Failure (StateT (List Exchange) m) α) (Pure.pure a) :=
  recorded_pure Quiet.nil

theorem ask {request : Request} (h : request.isQuiet = true) (activity : Option Activity)
    (content : Value → Option α) :
    AsksQuietly (Rpc.ask rpc.traced activity request content)
      (rpc.ask activity request content) := by
  refine (recorded_ask rpc activity request content).mono ?_
  rintro result _ ⟨answer, -, rfl⟩
  exact .cons h .nil

/-- What follows is either left out or quiet itself. -/
theorem bind {x : ExceptT Failure (StateT (List Exchange) m) α} {y : ExceptT Failure m α}
    {f : α → ExceptT Failure (StateT (List Exchange) m) β} {g : α → ExceptT Failure m β}
    (h : AsksQuietly x y) (hf : ∀ a, AsksQuietly (f a) (g a)) :
    AsksQuietly (x >>= f) (y >>= g) :=
  Recorded.bindExcept h (fun _ _ hlog => hlog) fun a _ hlog =>
    (hf a).mono fun _ _ hrest => hlog.append hrest

/-- What is known of the exchanges that follow is known of the whole, if it does not depend on quiet
    ones before. -/
theorem before {x : ExceptT Failure (StateT (List Exchange) m) α} {y : ExceptT Failure m α}
    {f : α → ExceptT Failure (StateT (List Exchange) m) β} {g : α → ExceptT Failure m β}
    {R : Except Failure β → List Exchange → Prop} (h : AsksQuietly x y)
    (hquiet : ∀ failure log, Quiet log → R (.error failure) log)
    (hprepend : ∀ result first log, Quiet first → R result log → R result (first ++ log))
    (hf : ∀ a, Recorded (f a).run (g a).run R) : Recorded (x >>= f).run (y >>= g).run R :=
  Recorded.bindExcept h hquiet fun a _ hlog =>
    (hf a).mono fun _ _ hrest => hprepend _ _ _ hlog hrest

end AsksQuietly

namespace Document

open AsksQuietly

theorem asksQuietly_line (b : BufferHandle) (row : Int) :
    AsksQuietly (line rpc.traced b row) (line rpc b row) := by
  unfold line
  exact (ask rpc rfl _ _).bind fun lines => .pure _

theorem asksQuietly_lineCount (b : BufferHandle) :
    AsksQuietly (lineCount rpc.traced b) (lineCount rpc b) :=
  ask rpc rfl _ _

theorem asksQuietly_isFileBuffer (b : BufferHandle) :
    AsksQuietly (isFileBuffer rpc.traced b) (isFileBuffer rpc b) := by
  unfold isFileBuffer
  exact (ask rpc rfl _ _).bind fun kind => .pure _

section Editing

variable (d : Document)

theorem asksQuietly_text : AsksQuietly (d.text rpc.traced) (d.text rpc) := by
  unfold text
  exact (ask rpc rfl _ _).bind fun lines => .pure _

theorem asksQuietly_selection : AsksQuietly (d.selection rpc.traced) (d.selection rpc) := by
  unfold selection
  cases d.commandRange with
  | none => exact .pure _
  | some range =>
      refine (ask rpc rfl _ _).bind fun start => (ask rpc rfl _ _).bind fun stop => ?_
      simp only []
      -- The lines are asked for only if the marks may be on some.
      split
      · exact .pure _
      · refine (asksQuietly_line rpc _ _).bind fun startLine => ?_
        refine (asksQuietly_line rpc _ _).bind fun stopLine => ?_
        exact (asksQuietly_lineCount rpc _).bind fun count => .pure _

theorem asksQuietly_textInRange (r : Range) :
    AsksQuietly (d.textInRange rpc.traced r) (d.textInRange rpc r) := by
  unfold textInRange
  exact (ask rpc rfl _ _).bind fun text => .pure _

theorem asksQuietly_setText (t : Text) :
    AsksQuietly (d.setText rpc.traced t) (d.setText rpc t) :=
  ask rpc rfl _ _

theorem asksQuietly_setTextInRange (r : Range) (t : Text) :
    AsksQuietly (d.setTextInRange rpc.traced r t) (d.setTextInRange rpc r t) := by
  unfold setTextInRange
  refine (asksQuietly_lineCount rpc _).bind fun count => ?_
  refine (asksQuietly_line rpc _ _).bind fun lastLine => ?_
  -- What stands in a range is read first if the range reaches the end.
  cases Selection.reachesEnd r count lastLine with
  | false =>
      simp only [Bool.false_eq_true, if_false, pure_bind]
      exact ask rpc rfl _ _
  | true =>
      simp only [if_true]
      exact (asksQuietly_textInRange rpc d r).bind fun source => ask rpc rfl _ _

theorem asksQuietly_isModified : AsksQuietly (d.isModified rpc.traced) (d.isModified rpc) := by
  unfold isModified
  exact (ask rpc rfl _ _).bind fun flag => .pure _

theorem asksQuietly_scope : AsksQuietly (d.scope rpc.traced) (d.scope rpc) := by
  unfold scope
  exact (ask rpc rfl _ _).bind fun filetype => .pure _

end Editing

end Document

section Formatting

open Formatter AsksQuietly Document

variable (d : Document)

theorem asksQuietly_selected (selectionOnly : Bool) :
    AsksQuietly (selected (d.editor rpc.traced) selectionOnly)
      (selected (d.editor rpc) selectionOnly) := by
  cases selectionOnly with
  | false => exact .pure _
  | true => exact asksQuietly_selection rpc d

theorem asksQuietly_apply (request : FormatRequest) (result : Text) :
    AsksQuietly (apply (d.editor rpc.traced) request result)
      (apply (d.editor rpc) request result) := by
  unfold apply
  by_cases h : result = request.source
  · rw [if_pos h, if_pos h]
    exact .pure _
  · rw [if_neg h, if_neg h]
    cases request.selection with
    | none => exact asksQuietly_setText rpc d result
    | some range => exact asksQuietly_setTextInRange rpc d range result

/-- The libraries make no requests. -/
theorem recorded_transform_lift (l : Libraries m) (text : Text) (style : Style)
    (usePrettier : Bool) (workdir : Option Path) :
    Recorded (Pipeline.transform (l.lift : Libraries (StateT (List Exchange) m)) text style
        usePrettier workdir)
      (Pipeline.transform l text style usePrettier workdir) fun _ log => log = [] := by
  refine ⟨(fun outcome => ⟨(outcome, []), rfl⟩) <$> Pipeline.transform l text style usePrettier
    workdir, fun log => ?_, ?_⟩
  · rw [Pipeline.run_transform_lift, Functor.map_map]
    simp only [List.append_nil]
  · rw [Functor.map_map]
    exact id_map' _

end Formatting

end Restyle.Neovim
