import Restyle.Neovim.Document
import Restyle.Neovim.Instance
import Restyle.Proofs.Effects
import Restyle.Proofs.Neovim.Asking
import Restyle.Proofs.Neovim.Places

/-!
# Editors That Answer

What a document asks of an editor, when the editor does what is documented.

The editor is another program, and all that is known of it is how it answers. It is taken as a state and
an answer to each request in each state, together with a view of the lines of the buffer in question, if
the editor still has it. `Serves` says of the five requests that reading and writing consist of what the
documentation of the editor says: which lines are counted, read and replaced, how the two scripts take a
range apart and put it together again, and that reading leaves the lines alone. Nothing is said about
buffers that the editor has lost, about ranges outside of the lines, or about any other request.

`Ends` is what a request, or any operation that is made of requests, comes to: a value and the lines
that it leaves. Operations are put together by `Ends.bind`, so each of them is followed from request to
request. To follow one that only reads, the half of `Serves` that is about reading is enough, and it is
kept apart as `Reads`, because it holds of more views: a view may also look at what has been written so
far, as long as it shows the same after a reading.

## Main definitions

* `Serves`: An editor carries out the requests for a document as documented.
* `Reads`: An editor carries out those that only read.
* `Ends`: An operation gives a value and leaves the buffer with certain lines.

## Theorems

* `ends_text`, `ends_textInRange`: What is read is what the lines stand for.
* `ends_setText`, `ends_setTextInRange`: What is written is in the lines afterwards.
* `Reads.ends_setTextInRange`: The same, where the writing is seen by another view.
* `Instance.serves`: An instance carries out the requests as documented.
-/

namespace Restyle.Neovim

open Lines

section Service

variable {σ : Type} (answer : σ → Request → Except RpcError Value × σ)
  (view : σ → Option (List Text))

/-- A request is answered with a value, and the buffer has certain lines afterwards. -/
def Replies (s : σ) (request : Request) (value : Value) (lines : List Text) : Prop :=
  ∃ s', answer s request = (.ok value, s') ∧ view s' = some lines

/-- An editor carries out the requests for a document as documented. The number of lines is an integer
    of the protocol, so it is told if it is one. -/
structure Serves (d : Document) : Prop where
  lineCount : ∀ {s lines}, view s = some lines → Stored lines →
    (lines.length : Int) ≤ Int64.maxValue.toInt →
    Replies answer view s (.lineCount d.buffer) (.int lines.length) lines
  getLines : ∀ {s lines} (first last : Int), view s = some lines → Stored lines →
    Replies answer view s (.getLines d.buffer first last)
      (.array ((rows lines first last).map .str)) lines
  setLines : ∀ {s lines new}, view s = some lines → Stored lines → Stored new →
    Replies answer view s (.setLines d.buffer new) .nil new
  /-- The lines between two places, joined with newlines. -/
  getText : ∀ {s lines} {r : Range}, view s = some lines → Stored lines →
    isPlace lines r.start → isPlace lines r.stop → r.start ≤ r.stop →
    Replies answer view s (.runScript .getText (d.rangeArguments r))
      (.str (['\n'].intercalate (cut lines r))) lines
  /-- The lines of a text, which is split at newlines, in place of those between two places. -/
  setText : ∀ {s lines} {r : Range} (t : Text), view s = some lines → Stored lines →
    isPlace lines r.start → isPlace lines r.stop → r.start ≤ r.stop →
    Replies answer view s (.runScript .setText (d.rangeArguments r ++ [.str t])) .nil
      (put lines r (t.segments '\n'))

/-- An editor carries out the requests for a document that only read as documented. -/
structure Reads (d : Document) : Prop where
  lineCount : ∀ {s lines}, view s = some lines → Stored lines →
    (lines.length : Int) ≤ Int64.maxValue.toInt →
    Replies answer view s (.lineCount d.buffer) (.int lines.length) lines
  getLines : ∀ {s lines} (first last : Int), view s = some lines → Stored lines →
    Replies answer view s (.getLines d.buffer first last)
      (.array ((rows lines first last).map .str)) lines
  getText : ∀ {s lines} {r : Range}, view s = some lines → Stored lines →
    isPlace lines r.start → isPlace lines r.stop → r.start ≤ r.stop →
    Replies answer view s (.runScript .getText (d.rangeArguments r))
      (.str (['\n'].intercalate (cut lines r))) lines

variable {answer view} in
theorem Serves.reads {d : Document} (h : Serves answer view d) : Reads answer view d :=
  ⟨h.lineCount, h.getLines, h.getText⟩

variable {m : Type → Type} [Monad m]

/-- An operation gives a value and leaves the buffer with certain lines. -/
def Ends {α : Type} (s : σ) (x : ExceptT Failure (StateT σ m) α) (a : α) (lines : List Text) :
    Prop :=
  ∃ s', x.run.run s = pure (.ok a, s') ∧ view s' = some lines

end Service

/-- A text as it is written to a range: without the newline at its end if the range ends where the
    lines do, and the text in it does not end in one. -/
def fitted (lines : List Text) (r : Range) (t : Text) : Text :=
  if r.stop = endPoint lines ∧ (between lines r).endsInNewline = false then t.withoutFinalNewline
  else t

section Operations

variable {σ : Type} {answer : σ → Request → Except RpcError Value × σ}
  {view view' : σ → Option (List Text)} {m : Type → Type} [Monad m] [LawfulMonad m] {α β : Type}
  {s : σ}

/-- After an operation the next one starts with the lines that it left. -/
theorem Ends.bind {x : ExceptT Failure (StateT σ m) α} {f : α → ExceptT Failure (StateT σ m) β}
    {a : α} {b : β} {lines after : List Text} (h : Ends view s x a lines)
    (hf : ∀ s', view s' = some lines → Ends view' s' (f a) b after) :
    Ends view' s (x >>= f) b after := by
  rcases h with ⟨s', hrun, hview⟩
  rcases hf s' hview with ⟨s'', hrun', hview'⟩
  exact ⟨s'', (run_bind_ok hrun).trans hrun', hview'⟩

omit [LawfulMonad m] in
theorem ends_pure {lines : List Text} (a : α) (h : view s = some lines) :
    Ends view s (pure a : ExceptT Failure (StateT σ m) α) a lines :=
  ⟨s, run_pure a s, h⟩

/-- Asking gives the value of the answer, if it has one of the kind that is asked for. -/
theorem ends_ask {request : Request} {value : Value} {lines : List Text} {a : α}
    {content : Value → Option α} (h : Replies answer view s request value lines)
    (hcontent : content value = some a) (activity : Option Activity) :
    Ends view s (Rpc.ask (serve (m := m) answer) activity request content) a lines := by
  rcases h with ⟨s', hanswer, hview⟩
  refine ⟨s', ?_, hview⟩
  rw [run_ask_serve, hanswer, heard_of_content hcontent]

/-- A request that is made for its effect gives nothing. -/
theorem ends_done {request : Request} {value : Value} {lines : List Text}
    (h : Replies answer view s request value lines) (activity : Option Activity) :
    Ends view s (Rpc.ask (serve (m := m) answer) activity request fun _ => some ()) () lines := by
  have hcontent : (fun _ : Value => some ()) value = some () := rfl
  exact ends_ask h hcontent activity

theorem strs?_array (lines : List Text) : Value.strs? (.array (lines.map .str)) = some lines := by
  change (lines.map Value.str).mapM Value.str? = some lines
  induction lines with
  | nil => rfl
  | cons line lines ih =>
      rw [List.map_cons, List.mapM_cons, ih]
      rfl

theorem int?_length {lines : List Text} (h : (lines.length : Int) ≤ Int64.maxValue.toInt) :
    Value.int? (.int lines.length) = some (lines.length : Int) := by
  rw [Value.int?, if_pos ⟨Int.le_trans (by decide) (Int.natCast_nonneg _), h⟩]

section Reading

variable {d : Document} (h : Reads answer view d) {lines : List Text}
  (hview : view s = some lines) (hlines : Stored lines)

include h hview hlines

/-- What is read of a document is the text that its lines stand for. -/
theorem Reads.ends_text : Ends view s (d.text (serve (m := m) answer)) (text lines) lines := by
  unfold Document.text
  have hreply := h.getLines 0 (-1) hview hlines
  rw [rows_all] at hreply
  exact Ends.bind (ends_ask hreply (strs?_array lines) _) fun s' hview' => ends_pure _ hview'

theorem Reads.ends_lineCount (hcount : (lines.length : Int) ≤ Int64.maxValue.toInt) :
    Ends view s (Document.lineCount (serve (m := m) answer) d.buffer) lines.length lines :=
  ends_ask (h.lineCount hview hlines hcount) (int?_length hcount) _

theorem Reads.ends_line (row : Int) :
    Ends view s (Document.line (serve (m := m) answer) d.buffer row)
      (lineAt lines row) lines := by
  unfold Document.line
  have hreply := h.getLines row (row + 1) hview hlines
  exact Ends.bind (ends_ask hreply (strs?_array _) _) fun s' hview' => ends_pure _ hview'

/-- What is read between two places is what the lines between them stand for. -/
theorem Reads.ends_textInRange {r : Range} (hp : isPlace lines r.start) (hq : isPlace lines r.stop)
    (hle : r.start ≤ r.stop) :
    Ends view s (d.textInRange (serve (m := m) answer) r) (between lines r) lines := by
  unfold Document.textInRange
  have hreply := h.getText hview hlines hp hq hle
  exact Ends.bind (ends_ask hreply rfl _) fun s' hview' => ends_pure _ hview'

/-- The lines of what a range is replaced by: without the newline at its end if the range ends where
    the lines do, and the text in it does not end in one. All but the last request only read. -/
theorem Reads.ends_setTextInRange {r : Range}
    (hcount : (lines.length : Int) ≤ Int64.maxValue.toInt) (hp : isPlace lines r.start)
    (hq : isPlace lines r.stop) (hle : r.start ≤ r.stop) (t : Text)
    (hwrite : ∀ s', view s' = some lines →
      Replies answer view' s' (.runScript .setText (d.rangeArguments r ++ [.str (fitted lines r t)]))
        .nil (put lines r (fitted lines r t).lines)) :
    Ends view' s (d.setTextInRange (serve (m := m) answer) r t) ()
      (put lines r (fitted lines r t).lines) := by
  unfold Document.setTextInRange
  -- The lines are counted and the last one is read, to see whether the range reaches the end.
  refine Ends.bind (h.ends_lineCount hview hlines hcount) fun s₁ hview₁ => ?_
  refine Ends.bind (h.ends_line hview₁ hlines _) fun s₂ hview₂ => ?_
  rw [lineAt_last hlines.ne_nil]
  simp only [reachesEnd_eq hlines hq]
  by_cases hend : r.stop = endPoint lines
  · have hfit : Selection.fit t (between lines r) true = fitted lines r t := by
      rw [Selection.fit, fitted, Bool.true_and]
      simp only [hend, true_and, Bool.not_eq_true']
    simp only [hend, decide_true, if_true]
    refine Ends.bind (h.ends_textInRange hview₂ hlines hp hq hle) fun s₃ hview₃ => ?_
    rw [hfit]
    exact ends_done (hwrite s₃ hview₃) _
  · have hfit : Selection.fit t [] false = fitted lines r t := by
      rw [Selection.fit, fitted, Bool.false_and, if_neg Bool.false_ne_true,
        if_neg fun hboth => hend hboth.1]
    simp only [hend, decide_false, Bool.false_eq_true, if_false, pure_bind]
    rw [hfit]
    exact ends_done (hwrite s₂ hview₂) _

end Reading

variable {d : Document} (h : Serves answer view d) {lines : List Text}
  (hview : view s = some lines) (hlines : Stored lines)

include h hview hlines

theorem ends_text : Ends view s (d.text (serve (m := m) answer)) (text lines) lines :=
  h.reads.ends_text hview hlines

theorem ends_textInRange {r : Range} (hp : isPlace lines r.start) (hq : isPlace lines r.stop)
    (hle : r.start ≤ r.stop) :
    Ends view s (d.textInRange (serve (m := m) answer) r) (between lines r) lines :=
  h.reads.ends_textInRange hview hlines hp hq hle

/-- The lines of a text are written without the newline at its end. -/
theorem ends_setText (t : Text) :
    Ends view s (d.setText (serve (m := m) answer) t) () (Document.storedLines t) := by
  unfold Document.setText
  have hreply := h.setLines hview hlines (stored_lines t.withoutFinalNewline)
  exact ends_done hreply _

/-- What is written to a range is in the lines afterwards, fitted into its place. -/
theorem ends_setTextInRange {r : Range} (hcount : (lines.length : Int) ≤ Int64.maxValue.toInt)
    (hp : isPlace lines r.start) (hq : isPlace lines r.stop) (hle : r.start ≤ r.stop) (t : Text) :
    Ends view s (d.setTextInRange (serve (m := m) answer) r t) ()
      (put lines r (fitted lines r t).lines) :=
  h.reads.ends_setTextInRange hview hlines hcount hp hq hle t fun _ hview' =>
    h.setText (fitted lines r t) hview' hlines hp hq hle

end Operations

namespace Instance

/-- The lines of a buffer, if an instance has it. -/
def view (number : Int) (i : Instance) : Option (List Text) :=
  if i.buffer = number then some i.lines else none

theorem eq_of_view {number : Int} {i : Instance} {lines : List Text}
    (h : i.view number = some lines) : i.buffer = number ∧ i.lines = lines := by
  unfold view at h
  by_cases hbuffer : i.buffer = number
  · rw [if_pos hbuffer] at h
    exact ⟨hbuffer, Option.some.inj h⟩
  · rw [if_neg hbuffer] at h
    cases h

theorem view_withLines {number : Int} {i : Instance} {new : List Text} (h : i.buffer = number)
    (hnew : new ≠ []) : (i.withLines new).view number = some new := by
  unfold view withLines
  rw [if_pos h, if_neg hnew]

theorem point?_natCast (p : Point) : point? p.row p.column = some p := by
  unfold point?
  rw [if_pos ⟨Int.natCast_nonneg _, Int.natCast_nonneg _⟩]
  rfl

/-- An instance carries out the requests as documented. -/
theorem serves {d : Document} (hd : d.buffer = .ofNumber d.number) :
    Serves answer (view d.number) d where
  lineCount := by
    intro i lines hview hlines hcount
    rcases eq_of_view hview with ⟨hbuffer, rfl⟩
    refine ⟨i, ?_, hview⟩
    rw [hd, ← hbuffer, answer, reading, beq_self_eq_true, if_pos rfl]
  getLines := by
    intro i lines first last hview hlines
    rcases eq_of_view hview with ⟨hbuffer, rfl⟩
    refine ⟨i, ?_, hview⟩
    rw [hd, ← hbuffer, answer, reading, beq_self_eq_true, if_pos rfl]
  setLines := by
    intro i lines new hview hlines hnew
    rcases eq_of_view hview with ⟨hbuffer, rfl⟩
    refine ⟨i.withLines new, ?_, view_withLines hbuffer hnew.ne_nil⟩
    rw [hd, ← hbuffer, answer, beq_self_eq_true, if_pos rfl]
  getText := by
    intro i lines r hview hlines hp hq hle
    rcases eq_of_view hview with ⟨hbuffer, rfl⟩
    refine ⟨i, ?_, hview⟩
    rw [answer, Document.rangeArguments, runScript, point?_natCast, point?_natCast]
    simp only [hbuffer, if_true, sent, hp, hq, hle, decide_true, Bool.and_true]
    rfl
  setText := by
    intro i lines r t hview hlines hp hq hle
    rcases eq_of_view hview with ⟨hbuffer, rfl⟩
    have hput := hlines.put (stored_lines t) hp hq
    -- An instance splits the whole new text, which gives the same lines.
    refine ⟨i.withLines (put i.lines r t.lines), ?_, view_withLines hbuffer hput.ne_nil⟩
    rw [answer, Document.rangeArguments, List.cons_append]
    simp only [List.cons_append, List.nil_append, runScript, point?_natCast, hbuffer, hp, hq, hle]
    rw [replace_eq_put hlines hp hq]
    rfl

end Instance

end Restyle.Neovim
