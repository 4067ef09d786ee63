import Restyle.Neovim.Host
import Restyle.Proofs.Neovim.Opening
import Restyle.Proofs.Neovim.Writes

/-!
# Commands for Certain Lines

What a command for certain lines does to the others.

A command with a range is for a part on its lines, and a part is all that a run writes. So what stands
before the first of these lines and behind the last stays, whatever the libraries answer. There is one
way around this. Where the marks give no part, a run is for all lines, although the command was for
certain ones. The marks of the editor may enclose nothing or start inside a character. And the marks
around whole lines enclose nothing if the command is for the last line alone and that line is empty:
its newline is only implied, so it is not part of the range.

## Main definitions

* `Confined`: A text is that of the lines outside of certain ones, with something in between.
* `FormatsPart`: A computation is the pipeline on a part of the lines, or leaves them.

## Theorems

* `confined_withPart`: Writing a part that is on certain lines leaves the others as they are.
* `formatsPart_handle`: A command is a run on the part that it is for.
* `handle_confined`: A command for which there is a part leaves the other lines as they are.
* `handle_not_confined`: A command for an empty last line changes the line before it.
-/

namespace Restyle.Neovim

open Lines

/-- A text starts with the lines before certain ones, which are counted from one, and ends with those
    behind them. -/
def Confined (lines : List Text) (first last : Int) (t : Text) : Prop :=
  ∃ middle, t = closed (lines.take (first - 1).toNat) ++ middle ++ closed (lines.drop last.toNat)

section Confinement

variable {lines : List Text} {first last : Int}

theorem intercalate_upTo (lines : List Text) (p : Point) :
    ['\n'].intercalate (upTo lines p) =
      closed (lines.take p.row) ++ (lines.getD p.row []).takeBytes p.column := by
  rw [upTo, intercalate_append _ (List.cons_ne_nil _ _), List.intercalate_singleton]

theorem text_fromPoint (lines : List Text) (p : Point) :
    text (fromPoint lines p) =
      (lines.getD p.row []).dropBytes p.column ++ ['\n'] ++ closed (lines.drop (p.row + 1)) := by
  rw [text_eq_closed (fromPoint_ne_nil _ _), fromPoint, closed_cons]

/-- What comes after a part ends with the lines behind those that it is on. -/
theorem Covers.exists_text_fromPoint {r : Range} (h : Covers lines first last r) :
    ∃ rest, text (fromPoint lines r.stop) = rest ++ closed (lines.drop last.toNat) := by
  rcases h.stop_row with hrow | ⟨hrow, hcolumn⟩
  · have hlast : last.toNat = r.stop.row + 1 := by omega
    rw [text_fromPoint, hlast]
    exact ⟨_, rfl⟩
  · -- The part ends before the first of these lines, and that is complete.
    have hlast : last.toNat = r.stop.row := by omega
    rcases exists_parts_of_isPlace h.stop_place with ⟨xs, a, b, ys, hlines, hstop⟩
    rw [hstop] at hcolumn
    have ha : a = [] := Text.eq_nil_of_byteLength hcolumn
    subst ha
    refine ⟨[], ?_⟩
    rw [hlast, hstop, hlines, fromPoint_parts, List.drop_left' rfl]
    exact text_eq_closed (List.cons_ne_nil _ _)

/-- Lines that stay as they are keep those outside of certain ones. -/
theorem confined_text (hlines : lines ≠ []) (hfirst : 1 ≤ first) (hle : first ≤ last) :
    Confined lines first last (text lines) := by
  -- What stands between is cut out of the lines.
  have hle' : (first - 1).toNat ≤ last.toNat := by omega
  have hbehind : lines.drop last.toNat =
      (lines.drop (first - 1).toNat).drop (last.toNat - (first - 1).toNat) := by
    rw [List.drop_drop, Nat.add_sub_cancel' hle']
  refine ⟨closed ((lines.drop (first - 1).toNat).take (last.toNat - (first - 1).toNat)), ?_⟩
  rw [text_eq_closed hlines, ← closed_append, ← closed_append, hbehind, List.append_assoc,
    List.take_append_drop, List.take_append_drop]

/-- Outside of all lines there is nothing to keep. -/
theorem confined_all (t : Text) : Confined lines 1 lines.length t := by
  refine ⟨t, ?_⟩
  rw [Int.toNat_natCast, List.drop_length]
  exact (List.append_nil t).symm

/-- Writing a part that is on certain lines leaves the others as they are. -/
theorem confined_withPart {r : Range} (h : Covers lines first last r) (t : Text) :
    Confined lines first last (text (withPart lines (some r) t)) := by
  rcases h.exists_text_fromPoint with ⟨rest, hrest⟩
  -- What is written comes between the two pieces of lines that the part is cut from.
  have hrow : (first - 1).toNat = r.start.row := by
    have hstart := h.start_row
    omega
  unfold Confined
  change ∃ middle, text (put lines r (fitted lines r t).lines) = _
  rw [text_put _ _ (stored_lines _).ne_nil, intercalate_upTo, hrest, hrow]
  refine ⟨(lines.getD r.start.row []).takeBytes r.start.column ++
    ['\n'].intercalate (fitted lines r t).lines ++ rest, ?_⟩
  simp only [List.append_assoc]

end Confinement

/-- A computation leaves the lines as they are, or it is the pipeline on a part of them, with its result
    in the place of that part. -/
def FormatsPart {σ : Type} {m : Type → Type} [Monad m] (view : σ → Option (List Text))
    (l : Libraries m) (lines : List Text) (place : Option Range) (x : m (Except Failure Unit × σ)) :
    Prop :=
  (∃ result s', x = pure (result, s') ∧ view s' = some lines) ∨
    ∃ (style : Style) (usePrettier : Bool) (workdir : Option Path)
      (after : Except FixerFailure Text → σ),
      (x = (fun outcome => (.ok (), after outcome)) <$>
        Pipeline.transform l (part lines place) style usePrettier workdir) ∧
      ∀ outcome : Except FixerFailure Text,
        view (after outcome) = some (runLines lines place (outcome.toOption.getD (part lines place)))

section Command

variable {σ : Type} {answer : σ → Request → Except RpcError Value × σ}
  {view : σ → Option (List Text)} {d d' : Document}

theorem Serves.congr (h : Serves answer view d) (hbuffer : d'.buffer = d.buffer)
    (hnumber : d'.number = d.number) : Serves answer view d' := by
  rcases d with ⟨b, number, window, path, range⟩
  rcases d' with ⟨b', number', window', path', range'⟩
  cases hbuffer
  cases hnumber
  exact ⟨h.lineCount, h.getLines, h.setLines, h.getText, h.setText⟩

theorem Attends.congr {marks : (Int × Int) × (Int × Int)} (h : Attends answer view marks d)
    (hbuffer : d'.buffer = d.buffer) (hnumber : d'.number = d.number) :
    Attends answer view marks d' := by
  rcases d with ⟨b, number, window, path, range⟩
  rcases d' with ⟨b', number', window', path', range'⟩
  cases hbuffer
  cases hnumber
  exact ⟨⟨h.lineCount, h.getLines, h.getText⟩, h.getBytes, h.startMark, h.stopMark, h.keeps⟩

variable {m : Type → Type} [Monad m] [LawfulMonad m] {marks : (Int × Int) × (Int × Int)}
  {first last : Int} {lines : List Text} {s : σ}

/-- The lines after a run are confined, if there is a part for it or it is for all lines. -/
theorem confined_runLines (hlines : Stored lines) (hfirst : 1 ≤ first) (hle : first ≤ last)
    (htarget : (target lines true (some (first, last)) marks).isSome ∨
      first = 1 ∧ last = lines.length) (t : Text) :
    Confined lines first last
      (text (runLines lines (target lines true (some (first, last)) marks) t)) := by
  unfold runLines
  split
  · exact confined_text hlines.ne_nil hfirst hle
  · rcases htarget with hsome | ⟨rfl, rfl⟩
    · rcases Option.isSome_iff_exists.mp hsome with ⟨r, hr⟩
      rw [hr]
      exact confined_withPart (covers_marked (marked_of_target hr).1) t
    · exact confined_all _

/-- A command is a run with the style of its document. -/
theorem run_command (rpc : Rpc (StateT σ m)) (f : Formatter m) (d : Document) (s : σ) :
    (f.lift.command (some (d.editor rpc))).run.run s =
      (f.lift.run (d.editor rpc) f.settings
        (Style.resolve f.tree f.settings (f.projectStart d.path)) true).run.run s := by
  have hpath : (d.editor rpc).path.run s = pure (d.path, s) := rfl
  unfold Formatter.command
  exact run_bind_ok (run_liftM_ok hpath)

/-- Handling a command leaves the lines as they are, or it is the pipeline on the part that the command
    is for. -/
theorem formatsPart_handle (hserves : Serves answer view d) (hattends : Attends answer view marks d)
    (hcurrent : Current answer view d) (hview : view s = some lines) (hlines : Stored lines)
    (hcount : (lines.length : Int) ≤ Int64.maxValue.toInt) (f : Formatter m)
    (commandRange : Option (Int × Int)) :
    FormatsPart view f.libraries lines (target lines true commandRange marks)
      ((Host.handle (serve answer) f.lift (.format commandRange)).run.run s) := by
  unfold Host.handle
  rcases leaves_active? (m := m) hattends.keeps hcurrent commandRange s lines hview with
    ⟨opened, s₁, hopen, hview₁, hopened⟩
  cases opened with
  | error failure => exact .inl ⟨.error failure, s₁, run_bind_error _ hopen, hview₁⟩
  | ok opened =>
      rw [run_bind_ok hopen]
      cases opened with
      | none => exact .inl ⟨.ok (), s₁, rfl, hview₁⟩
      | some d' =>
          -- What is opened differs from the document at hand in its window and path only.
          rcases hopened _ rfl d' rfl with ⟨hbuffer, hnumber, rfl⟩
          have hserves' := hserves.congr hbuffer hnumber
          have hattends' := hattends.congr hbuffer hnumber
          have hplace : ∀ r ∈ target lines true d'.commandRange marks, IsPart lines r :=
            fun r hr => isPart_of_target hr
          rw [Option.map_some, run_command]
          rcases hattends'.run_cases hview₁ hlines hcount f _ _ true (fun _ => view)
            (fun _ => hattends.keeps) (fun _ _ _ hview' => hview')
            (fun t _ _ hview' => hserves'.replies_writing hview' hlines hplace t) with
            ⟨failure, s', hrun, hview'⟩ | ⟨after, hrun, hviews⟩
          · exact .inl ⟨.error failure, s', hrun, hview'⟩
          · exact .inr ⟨_, _, _, after, hrun, hviews⟩

/-- A command for certain lines leaves the others as they are, whatever the libraries answer, if the
    marks give a part for it. Without a part it is a run on the whole text. Away from the marks of the
    editor there is a part unless the command is for the last line alone and that line is empty. -/
theorem handle_confined (hserves : Serves answer view d) (hattends : Attends answer view marks d)
    (hcurrent : Current answer view d) (hview : view s = some lines) (hlines : Stored lines)
    (hcount : (lines.length : Int) ≤ Int64.maxValue.toInt) (f : Formatter m) (hfirst : 1 ≤ first)
    (hle : first ≤ last) (hlast : last ≤ lines.length) :
    let place := target lines true (some (first, last)) marks
    let run := (Host.handle (serve (m := m) answer) f.lift (.format (some (first, last)))).run.run s
    (place.isSome ∨ first = 1 ∧ last = lines.length →
      Always run fun r =>
        ∃ after, view r.2 = some after ∧ Confined lines first last (text after)) ∧
    (place = none → FormatsPart view f.libraries lines none run) ∧
    (¬ (marks.1.1 = first ∧ marks.2.1 = last) →
      (place = none ↔ first = lines.length ∧ lineAt lines (last - 1) = [])) := by
  intro place run
  have hcases : FormatsPart view f.libraries lines place run :=
    formatsPart_handle hserves hattends hcurrent hview hlines hcount f (some (first, last))
  refine ⟨fun htarget => ?_, fun hnone => ?_, target_elsewhere_eq_none_iff hfirst hle hlast⟩
  · rcases hcases with ⟨result, s', hrun, hview'⟩ | ⟨style, pretty, workdir, after, hrun, hviews⟩
    · rw [hrun]
      exact always_pure ⟨lines, hview', confined_text hlines.ne_nil hfirst hle⟩
    · rw [hrun]
      refine always_map (fun outcome => ⟨_, hviews outcome, ?_⟩) _
      exact confined_runLines hlines hfirst hle htarget _
  · rwa [hnone] at hcases

end Command

section Examples

/-- An instance whose last line is empty. -/
def emptyLastLine : Instance :=
  { lines := ["a;".toList, []] }

/-- A document of that instance. -/
def emptyLastDocument : Document :=
  { buffer := .ofNumber 1, number := 1, window := none, path := none, commandRange := none }

/-- What a command for one line leaves there, if the fixer always gives the same text. -/
def emptyLastRun (t : Text) (line : Int) : Except Failure Unit × Instance :=
  (Host.handle (serve (m := Id) Instance.answer) (fixing t).lift
    (.format (some (line, line)))).run.run emptyLastLine

theorem handle_confined_firstLine :
    LawfulMonad Id ∧
      Serves Instance.answer (Instance.marked 1 ((0, 0), (0, 0))) emptyLastDocument ∧
      Attends Instance.answer (Instance.marked 1 ((0, 0), (0, 0))) ((0, 0), (0, 0))
        emptyLastDocument ∧
      Current Instance.answer (Instance.marked 1 ((0, 0), (0, 0))) emptyLastDocument ∧
      Stored emptyLastLine.lines ∧ emptyLastLine.lines.length = 2 ∧
      (2 : Int) ≤ Int64.maxValue.toInt ∧
      (target emptyLastLine.lines true (some (1, 1)) ((0, 0), (0, 0))).isSome ∧
      (emptyLastRun "a\n".toList 1).2.lines = ["a".toList, []] ∧
      ∃ after, Instance.marked 1 ((0, 0), (0, 0)) (emptyLastRun "a\n".toList 1).2 = some after ∧
        Confined emptyLastLine.lines 1 1 (text after) := by
  have hserves : Serves Instance.answer (Instance.marked 1 ((0, 0), (0, 0))) emptyLastDocument :=
    Instance.serves_marked (d := emptyLastDocument) rfl _
  have hattends : Attends Instance.answer (Instance.marked 1 ((0, 0), (0, 0))) ((0, 0), (0, 0))
      emptyLastDocument := Instance.attends (d := emptyLastDocument) rfl rfl rfl
  have hcurrent : Current Instance.answer (Instance.marked 1 ((0, 0), (0, 0))) emptyLastDocument :=
    Instance.current (d := emptyLastDocument) rfl _
  have hstored : Stored emptyLastLine.lines := stored_lines "a;\n".toList
  have hpart : (target emptyLastLine.lines true (some (1, 1)) ((0, 0), (0, 0))).isSome := rfl
  refine ⟨inferInstance, hserves, hattends, hcurrent, hstored, rfl, by decide, hpart, rfl, ?_⟩
  have hone : (1 : Int) ≤ 1 := Int.le_refl 1
  rcases handle_confined hserves hattends hcurrent (s := emptyLastLine) rfl hstored (by decide)
    (fixing "a\n".toList) hone hone (by decide) with ⟨hconfined, -⟩
  -- Without effects there is one result.
  rcases hconfined (.inl hpart) with ⟨⟨r, hr⟩, hrun⟩
  have hresult : r = emptyLastRun "a\n".toList 1 := hrun
  rwa [hresult] at hr

/-- A command for an empty last line changes the line before it. -/
theorem handle_not_confined :
    (emptyLastRun "a\n\n".toList 2).1 = .ok () ∧
      (emptyLastRun "a\n\n".toList 2).2.lines = ["a".toList, []] ∧
      ¬ Confined emptyLastLine.lines 2 2 (text (emptyLastRun "a\n\n".toList 2).2.lines) := by
  refine ⟨rfl, rfl, ?_⟩
  -- The first line has lost its semicolon.
  rintro ⟨middle, h⟩
  have hsecond := congrArg (·[1]?) h
  cases hsecond

end Examples

end Restyle.Neovim
