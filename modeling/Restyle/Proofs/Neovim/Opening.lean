import Restyle.Proofs.Neovim.Formatting

/-!
# Opening a Document

That opening a document leaves its lines alone, and which document is opened.

A document is opened by many requests: whether the buffer is there and holds a file, what it is called,
and which of the windows shows it. Each of them may be refused, and then there is no document. All of
them only ask, so whatever the answers are, the lines are the same afterwards. The document that comes
of it is of the buffer that was asked for, and for the lines of the command.

## Main definitions

* `Current`: A document is of the buffer that the editor takes for the current one.

## Theorems

* `leaves_ofHandle?`: Opening a buffer leaves the lines, and the document is of that buffer.
* `leaves_active?`: The same for the current buffer.
-/

namespace Restyle.Neovim

open Lines

/-- A document is of the buffer that the editor takes for the current one, as long as it shows lines. -/
structure Current {σ : Type} (answer : σ → Request → Except RpcError Value × σ)
    (view : σ → Option (List Text)) (d : Document) : Prop where
  buffer : ∀ {s lines value after}, view s = some lines →
    answer s .currentBuffer = (.ok value, after) → BufferHandle.mk value = d.buffer
  number : ∀ {s lines value after n}, view s = some lines →
    answer s (.number d.buffer) = (.ok value, after) → value.int? = some n → n = d.number

section Opening

variable {σ : Type} {answer : σ → Request → Except RpcError Value × σ}
  {view : σ → Option (List Text)} {m : Type → Type} [Monad m] [LawfulMonad m]

section Windows

variable (h : Keeps answer view)

include h

theorem leaves_shownNumber (w : WindowHandle) :
    Leaves view (Document.shownNumber (serve (m := m) answer) w) fun _ => True := by
  unfold Document.shownNumber
  refine Leaves.bind (Leaves.asked h rfl) fun b _ => ?_
  exact Leaves.asked h rfl

/-- Every window is asked about in the same way, until one shows the buffer. -/
theorem leaves_firstShowing (number : Int) (windows : List WindowHandle) :
    Leaves view (Document.firstShowing (serve (m := m) answer) number windows) fun _ => True := by
  induction windows with
  | nil => exact Leaves.pure trivial
  | cons w rest ih =>
      unfold Document.firstShowing
      refine (leaves_shownNumber h w).bind fun shown _ => ?_
      by_cases hshown : shown = number
      · rw [if_pos hshown]
        exact Leaves.pure trivial
      · -- The next windows are asked about in the state that this one leaves.
        rw [if_neg hshown]
        exact ih

theorem leaves_findWindow (number : Int) :
    Leaves view (Document.findWindow (serve (m := m) answer) number) fun _ => True := by
  unfold Document.findWindow
  refine Leaves.bind (Leaves.asked h rfl) fun current _ => ?_
  refine (leaves_shownNumber h _).bind fun shown _ => ?_
  by_cases hshown : shown = number
  · rw [if_pos hshown]
    exact Leaves.pure trivial
  · rw [if_neg hshown]
    exact Leaves.bind (Leaves.asked h rfl) fun windows _ => leaves_firstShowing h number _

end Windows

/-- Opening a buffer leaves the lines as they are, and a document that comes of it is of that buffer. -/
theorem leaves_ofHandle? (h : Keeps answer view) (b : BufferHandle) (number : Int)
    (commandRange : Option (Int × Int)) :
    Leaves view (Document.ofHandle? (serve (m := m) answer) b number commandRange) fun opened =>
      ∀ d ∈ opened, d.buffer = b ∧ d.number = number ∧ d.commandRange = commandRange := by
  unfold Document.ofHandle?
  refine Leaves.bind (Leaves.asked h rfl) fun valid _ => ?_
  cases valid with
  | false => exact Leaves.pure fun _ hd => nomatch hd
  | true =>
      refine Leaves.bind (P := fun _ => True) ?_ fun isFile _ => ?_
      · exact Leaves.bind (Leaves.asked h rfl) fun kind _ => Leaves.pure trivial
      · cases isFile with
        | false => exact Leaves.pure fun _ hd => nomatch hd
        | true =>
            refine Leaves.bind (Leaves.asked h rfl) fun name _ => ?_
            refine (leaves_findWindow h number).bind fun window _ => Leaves.pure ?_
            -- Only the window and the path are answers.
            rintro d ⟨⟩
            exact ⟨rfl, rfl, rfl⟩

/-- Opening the current buffer leaves the lines as they are, and the document is of that buffer. -/
theorem leaves_active? (h : Keeps answer view) {current : Document}
    (hcurrent : Current answer view current) (commandRange : Option (Int × Int)) :
    Leaves view (Document.active? (serve (m := m) answer) commandRange) fun opened =>
      ∀ d ∈ opened, d.buffer = current.buffer ∧ d.number = current.number ∧
        d.commandRange = commandRange := by
  unfold Document.active?
  -- Both answers are those for the current document, so it is what is opened.
  have hbuffer : Leaves view (Rpc.ask (serve (m := m) answer) (some .currentBuffer) .currentBuffer
      some) fun value => BufferHandle.mk value = current.buffer := by
    refine Leaves.ask h rfl fun s lines value after b hview hanswer hcontent => ?_
    cases hcontent
    exact hcurrent.buffer hview hanswer
  refine hbuffer.bind fun b hb => ?_
  rw [hb]
  have hnumber : Leaves view (Rpc.ask (serve (m := m) answer) none (.number current.buffer)
      Value.int?) fun n => n = current.number :=
    Leaves.ask h rfl fun s lines value after n hview hanswer hcontent =>
      hcurrent.number hview hanswer hcontent
  refine hnumber.bind fun n hn => ?_
  rw [hn]
  exact leaves_ofHandle? h _ _ _

end Opening

namespace Instance

/-- The current buffer of an instance is the one that it has. -/
theorem current {d : Document} (hd : d.buffer = .ofNumber d.number)
    (marks : (Int × Int) × (Int × Int)) : Current answer (marked d.number marks) d where
  buffer := by
    intro i lines value after hview hanswer
    rcases eq_of_view (within_eq_some.mp hview).2 with ⟨hbuffer, -⟩
    have hvalue : value = .int i.buffer := (Except.ok.inj (congrArg Prod.fst hanswer)).symm
    rw [hvalue, hbuffer, hd]
    rfl
  number := by
    intro i lines value after n hview hanswer hn
    rcases eq_of_view (within_eq_some.mp hview).2 with ⟨hbuffer, -⟩
    rw [hd, ← hbuffer, answer, reading, beq_self_eq_true, if_pos rfl] at hanswer
    have hvalue : value = .int i.buffer := (Except.ok.inj (congrArg Prod.fst hanswer)).symm
    rw [hvalue, Value.int?, Option.ite_none_right_eq_some] at hn
    rw [← hbuffer]
    exact (Option.some.inj hn.2).symm

end Instance

end Restyle.Neovim
