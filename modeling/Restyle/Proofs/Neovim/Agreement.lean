import Mathlib.Data.List.Basic
import Restyle.Proofs.Neovim.Service

/-!
# Agreement with a Buffer in Memory

A document in an editor that does what is documented behaves like a buffer in memory.

The buffer in memory holds one text, and the newline at its end is a character like any other. The
editor holds lines, and that newline is only implied. So the two hold the same if the buffer's text is
that which the lines stand for, and then whatever is read of the one is read of the other. Writing
agrees up to that newline: a text that is to become the whole gets one if it has none, and a text in
place of the end of the last line gives its own up, because the implied one is there already.

## Theorems

* `editor_agrees`: A document is read and written like a buffer in memory with the same text.
-/

namespace Restyle.Neovim

open Lines

/-- The newline that is left out when lines are stored is the one that they imply. -/
theorem text_storedLines (t : Text) :
    text (Document.storedLines t) = if t.endsInNewline then t else t ++ ['\n'] := by
  rw [Document.storedLines, text_lines, Text.withoutFinalNewline]
  by_cases h : t.endsInNewline
  · rw [if_pos h, if_pos h]
    exact List.dropLast_append_getLast? _ (beq_iff_eq.mp h)
  · rw [if_neg h, if_neg h]

variable {σ : Type} {answer : σ → Request → Except RpcError Value × σ}
  {view : σ → Option (List Text)} {m : Type → Type} [Monad m] [LawfulMonad m]

/-- A document in an editor that carries out its requests as documented is read and written like a
    buffer in memory whose text is that of its lines. The text and the texts between places are the
    same. A text that is written as a whole is read back with a newline at its end. A text that is
    written between two places is read back as the buffer has it, to which it was written without the
    newline at its end if the places reach to the end of the last line and the text between them does
    not end in a newline. For this the lines are counted, so their number has to be an integer of the
    protocol. -/
theorem editor_agrees {d : Document} (h : Serves answer view d) {s : σ} {lines : List Text}
    (hview : view s = some lines) (hlines : Stored lines) {b : Buffer}
    (hb : b.text = text lines) :
    Ends view s (d.editor (serve (m := m) answer)).text b.text lines ∧
    (∀ r : Range, isPlace lines r.start → isPlace lines r.stop → r.start ≤ r.stop →
      Ends view s ((d.editor (serve (m := m) answer)).textInRange r) (b.textInRange r) lines) ∧
    (∀ t, ∃ after, Stored after ∧
      Ends view s (do
          (d.editor (serve (m := m) answer)).setText t
          (d.editor (serve (m := m) answer)).text)
        (if t.endsInNewline then t else t ++ ['\n']) after) ∧
    (∀ (r : Range) (t : Text), (lines.length : Int) ≤ Int64.maxValue.toInt →
      isPlace lines r.start → isPlace lines r.stop → r.start ≤ r.stop →
      ∃ after, Stored after ∧
        Ends view s (do
            (d.editor (serve (m := m) answer)).setTextInRange r t
            (d.editor (serve (m := m) answer)).text)
          (b.setTextInRange r
            (if r.stop = endPoint lines ∧ (b.textInRange r).endsInNewline = false then
              t.withoutFinalNewline else t)).text after) := by
  refine ⟨?_, ?_, ?_, ?_⟩
  · rw [hb]
    exact ends_text h hview hlines
  · intro r hp hq hle
    rw [textInRange_eq_between hb hlines hp hq hle]
    exact ends_textInRange h hview hlines hp hq hle
  · intro t
    refine ⟨Document.storedLines t, stored_lines _, ?_⟩
    refine Ends.bind (ends_setText h hview hlines t) fun s' hview' => ?_
    rw [← text_storedLines]
    exact ends_text h hview' (stored_lines _)
  · intro r t hcount hp hq hle
    have hput := hlines.put (stored_lines (fitted lines r t)) hp hq
    refine ⟨_, hput, Ends.bind (ends_setTextInRange h hview hlines hcount hp hq hle t) ?_⟩
    intro s' hview'
    -- The buffer is written the text that was fitted to the lines.
    rw [text_setTextInRange hb hlines hp hq hle, textInRange_eq_between hb hlines hp hq hle]
    exact ends_text h hview' hput

/-- Two lines, of which the second is a character of two bytes. -/
def twoLines : Instance :=
  { lines := ["a;".toList, "é".toList] }

/-- A document of that instance. -/
def twoLinesDocument : Document :=
  { buffer := .ofNumber 1, number := 1, window := none, path := none, commandRange := none }

/-- From the end of the first line to the end of the last. -/
def lastLine : Range :=
  ⟨⟨0, 1⟩, ⟨1, 2⟩⟩

theorem editor_agrees_twoLines :
    LawfulMonad Id ∧ Serves Instance.answer (Instance.view 1) twoLinesDocument ∧
      Stored twoLines.lines ∧
      (∃ s', (twoLinesDocument.editor (serve (m := Id) Instance.answer)).text.run.run twoLines =
        (.ok "a;\né\n".toList, s')) ∧
      (∃ s', ((twoLinesDocument.editor (serve (m := Id) Instance.answer)).textInRange
        lastLine).run.run twoLines = (.ok ";\né".toList, s')) ∧
      (∃ s', (do
          (twoLinesDocument.editor (serve (m := Id) Instance.answer)).setTextInRange lastLine
            "b\n".toList
          (twoLinesDocument.editor (serve (m := Id) Instance.answer)).text).run.run twoLines =
        (.ok "ab\n".toList, s')) := by
  have hserves : Serves Instance.answer (Instance.view 1) twoLinesDocument :=
    Instance.serves (d := twoLinesDocument) rfl
  have hstored : Stored twoLines.lines := stored_lines "a;\né".toList
  rcases editor_agrees (m := Id) hserves (s := twoLines) rfl hstored
    (b := Buffer.ofText "a;\né\n".toList) rfl with ⟨htext, hread, -, hwrite⟩
  rcases htext with ⟨s₁, htext, -⟩
  rcases hread lastLine rfl rfl (by decide) with ⟨s₂, hread, -⟩
  rcases hwrite lastLine "b\n".toList (by decide) rfl rfl (by decide) with
    ⟨after, -, s₃, hwrite, -⟩
  exact ⟨inferInstance, hserves, hstored, ⟨s₁, htext⟩, ⟨s₂, hread⟩, ⟨s₃, hwrite⟩⟩

end Restyle.Neovim
