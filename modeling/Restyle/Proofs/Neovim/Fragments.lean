import Restyle.Proofs.Neovim.Writes

/-!
# Fragments and Their Newlines

What becomes of the newline that a fixer puts behind a fragment.

A fixer ends whatever it gives with a newline. Of a fragment that had none the newline is left out at one
place, where the lines end, because there the lines imply it. Everywhere else it is written, and what
stands behind the fragment goes to a line of its own: the rest of a line that was selected in part, and
an empty one if the selection stopped just before the newline of its line. So the lines afterwards are
those of the fragment, followed by nothing at the end and by the lines behind the fragment elsewhere.

## Theorems

* `lines_concat`: A newline opens an empty line.
* `fitted_concat`: The newline is written unless the fragment is the end of the lines.
* `put_fitted_concat`: What stands behind a fragment goes to a line of its own.
* `setTextInRange_concat`: The lines and the text after a fragment with a newline was written.
* `setTextInRange_breaks`: A line that is split, and an empty line.
-/

namespace Restyle.Neovim

open Lines

/-- A newline opens an empty line. -/
theorem lines_concat (t : Text) : Text.lines (t ++ ['\n']) = t.lines ++ [[]] :=
  Text.segments_append_cons t []

theorem weld_append (xs : List Text) {ys : List Text} (h : ys ≠ []) (zs : List Text) :
    weld xs (ys ++ zs) = weld xs ys ++ zs := by
  rcases List.exists_cons_of_ne_nil h with ⟨y, vs, rfl⟩
  simp only [weld, List.cons_append, List.head?_cons, List.tail_cons, List.append_assoc]

/-- Behind an empty line the other lines start anew. -/
theorem weld_concat_nil (xs : List Text) {ys : List Text} (h : ys ≠ []) :
    weld (xs ++ [[]]) ys = xs ++ ys := by
  rcases List.exists_cons_of_ne_nil h with ⟨y, vs, rfl⟩
  rw [weld_concat_cons, List.nil_append]

theorem weld_nil {xs : List Text} (h : xs ≠ []) : weld xs [[]] = xs := by
  rw [← List.dropLast_concat_getLast h, weld_concat_cons, List.append_nil]

section Fragments

variable {lines : List Text} {r : Range}

/-- Nothing stands behind the end of the last line. -/
theorem fromPoint_endPoint (h : lines ≠ []) : fromPoint lines (endPoint lines) = [[]] := by
  have hparts := fromPoint_parts lines.dropLast (lines.getLast h) [] []
  rw [List.append_nil, List.dropLast_concat_getLast h, List.length_dropLast] at hparts
  rwa [endPoint, List.getLast?_eq_some_getLast h, Option.getD_some]

/-- The newline behind a fragment is written unless the fragment is the end of the lines. -/
theorem fitted_concat (hend : (between lines r).endsInNewline = false) (t : Text) :
    fitted lines r (t ++ ['\n']) = t ++ if r.stop = endPoint lines then [] else ['\n'] := by
  rw [fitted]
  by_cases hstop : r.stop = endPoint lines
  · rw [if_pos ⟨hstop, hend⟩, if_pos hstop, withoutFinalNewline_concat, List.append_nil]
  · rw [if_neg fun h => hstop h.1, if_neg hstop]

/-- What stands behind a fragment goes to a line of its own, unless nothing does. -/
theorem put_fitted_concat (hne : lines ≠ []) (hend : (between lines r).endsInNewline = false)
    (t : Text) :
    put lines r (fitted lines r (t ++ ['\n'])).lines =
      weld (upTo lines r.start) t.lines ++
        if r.stop = endPoint lines then [] else fromPoint lines r.stop := by
  have hlines := (stored_lines t).ne_nil
  have hwelded : weld (upTo lines r.start) t.lines ≠ [] :=
    List.append_ne_nil_of_right_ne_nil _ (List.cons_ne_nil _ _)
  rw [fitted_concat hend]
  by_cases hstop : r.stop = endPoint lines
  · rw [if_pos hstop, if_pos hstop, List.append_nil, List.append_nil, put, hstop,
      fromPoint_endPoint hne, weld_nil hwelded]
  · rw [if_neg hstop, if_neg hstop, put, lines_concat, weld_append _ hlines,
      weld_concat_nil _ (fromPoint_ne_nil _ _)]

end Fragments

variable {σ : Type} {answer : σ → Request → Except RpcError Value × σ}
  {view : σ → Option (List Text)} {m : Type → Type} [Monad m] [LawfulMonad m]

/-- A fragment without a newline at its end is replaced by a text with one. Where the lines end the
    newline is left out, and the new text stands between what stood before and behind the fragment.
    Everywhere else the newline is written, whether the fragment ends inside a line or with one, and what
    stands behind it starts a line. This holds of the operation, and of a run that writes a result. -/
theorem setTextInRange_concat {d : Document} (h : Serves answer view d) {s : σ} {lines : List Text}
    (hview : view s = some lines) (hlines : Stored lines)
    (hcount : (lines.length : Int) ≤ Int64.maxValue.toInt) {r : Range} (hp : isPlace lines r.start)
    (hq : isPlace lines r.stop) (hle : r.start ≤ r.stop)
    (hend : (between lines r).endsInNewline = false) (t : Text) (cursor : Point) :
    let e := d.editor (serve (m := m) answer)
    let after := weld (upTo lines r.start) t.lines ++
      if r.stop = endPoint lines then [] else fromPoint lines r.stop
    Stored after ∧ Ends view s (e.setTextInRange r (t ++ ['\n'])) () after ∧
      Ends view s (Formatter.apply e ⟨between lines r, some r, cursor⟩ (t ++ ['\n'])) () after ∧
      text after = ['\n'].intercalate (upTo lines r.start) ++ t ++
        (if r.stop = endPoint lines then [] else ['\n']) ++ text (fromPoint lines r.stop) := by
  intro e after
  have hput : put lines r (fitted lines r (t ++ ['\n'])).lines = after :=
    put_fitted_concat hlines.ne_nil hend t
  have hends : Ends view s (e.setTextInRange r (t ++ ['\n'])) () after := by
    rw [← hput]
    exact ends_setTextInRange h hview hlines hcount hp hq hle (t ++ ['\n'])
  -- The result differs from what was read, which has no newline at its end.
  have hne : t ++ ['\n'] ≠ between lines r := by
    intro heq
    rw [← heq, endsInNewline_concat] at hend
    cases hend
  refine ⟨?_, hends, ?_, ?_⟩
  · rw [← hput]
    exact hlines.put (stored_lines _) hp hq
  · rw [Formatter.apply, if_neg hne]
    exact hends
  · rw [← hput, text_put _ _ (stored_lines _).ne_nil, Text.lines, Text.intercalate_segments,
      fitted_concat hend, ← List.append_assoc]

/-- An instance with two statements on its line. -/
def twoStatements : Instance :=
  { lines := ["a; b".toList] }

/-- The first statement. -/
def firstStatement : Range :=
  ⟨⟨0, 0⟩, ⟨0, 2⟩⟩

/-- The rest of the line goes to the next one, and at the end of the last line the newline is left
    out. -/
theorem setTextInRange_concat_twoStatements :
    LawfulMonad Id ∧ Serves Instance.answer (Instance.view 1) (oneLineDocument none) ∧
      Stored twoStatements.lines ∧ (twoStatements.lines.length : Int) ≤ Int64.maxValue.toInt ∧
      (between twoStatements.lines firstStatement).endsInNewline = false ∧
      Ends (m := Id) (Instance.view 1) twoStatements
        (((oneLineDocument none).editor (serve Instance.answer)).setTextInRange firstStatement
          "a\n".toList) () ["a".toList, " b".toList] ∧
      Ends (m := Id) (Instance.view 1) twoStatements
        (((oneLineDocument none).editor (serve Instance.answer)).setTextInRange ⟨⟨0, 3⟩, ⟨0, 4⟩⟩
          "c\n".toList) () ["a; c".toList] := by
  have hserves : Serves Instance.answer (Instance.view 1) (oneLineDocument none) :=
    Instance.serves (d := oneLineDocument none) rfl
  have hstored : Stored twoStatements.lines := stored_lines "a; b".toList
  have hcount : (twoStatements.lines.length : Int) ≤ Int64.maxValue.toInt := by decide
  rcases setTextInRange_concat (m := Id) hserves (s := twoStatements) rfl hstored hcount
    (r := firstStatement) rfl rfl (by decide) rfl "a".toList {} with ⟨-, hfirst, -, -⟩
  rcases setTextInRange_concat (m := Id) hserves (s := twoStatements) rfl hstored hcount
    (r := ⟨⟨0, 3⟩, ⟨0, 4⟩⟩) rfl rfl (by decide) rfl "c".toList {} with ⟨-, hlast, -, -⟩
  exact ⟨inferInstance, hserves, hstored, hcount, rfl, hfirst, hlast⟩

/-- The newline behind a fragment splits a line, and behind a whole line it leaves an empty one. In both
    cases the text is not the new one between what stood around the fragment. -/
theorem setTextInRange_breaks :
    between twoStatements.lines firstStatement = "a;".toList ∧
    between twoLines.lines firstStatement = "a;".toList ∧
    (∃ after, (((oneLineDocument none).editor (serve (m := Id) Instance.answer)).setTextInRange
        firstStatement "a\n".toList).run.run twoStatements = (.ok (), after) ∧
      after.lines = ["a".toList, " b".toList] ∧
      text after.lines ≠ ['\n'].intercalate (upTo twoStatements.lines firstStatement.start) ++
        "a".toList ++ text (fromPoint twoStatements.lines firstStatement.stop)) ∧
    ∃ after, ((twoLinesDocument.editor (serve (m := Id) Instance.answer)).setTextInRange
        firstStatement "a\n".toList).run.run twoLines = (.ok (), after) ∧
      after.lines = ["a".toList, [], "é".toList] ∧
      text after.lines ≠ ['\n'].intercalate (upTo twoLines.lines firstStatement.start) ++
        "a".toList ++ text (fromPoint twoLines.lines firstStatement.stop) :=
  ⟨rfl, rfl, ⟨_, rfl, rfl, by decide⟩, ⟨_, rfl, rfl, by decide⟩⟩

end Restyle.Neovim
