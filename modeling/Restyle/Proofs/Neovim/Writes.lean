import Restyle.Proofs.Neovim.Formatting

/-!
# What a Run Writes

The requests for writing that a run makes, and which of them change nothing.

A run writes when the result of the pipeline differs from the text that it has read. What is written
is not yet the result: the newline at its end is left out where the lines imply one. So two texts may
differ and be written as the same lines. This happens in two cases, and `Redundant` is what they look
like. The whole text always ends in a newline, and a result without one comes to the same lines. A part
that ends with the last line has no newline at its end, and a result with one, which is how a fixer ends
its text, comes to the same lines as well. In both cases there is a request that changes nothing, but
that the editor takes for a change. Every other request does change the lines.

To see what is asked, the editor is given a memory of the requests for writing. This is another editor
of the same kind, so everything that is known of runs is known of it.

## Main definitions

* `noted`: An editor that remembers what it was asked to write.
* `seen`: The lines of a buffer, if certain writes have been asked for.
* `Redundant`: A text whose writing changes nothing.

## Theorems

* `withPart_eq_self_iff`: Writing a different text changes the lines unless it is redundant.
* `run_writes`: A run writes once if the result differs, and otherwise not at all.
* `run_writes_redundant`: Both cases of a write that changes nothing.
-/

namespace Restyle.Neovim

open Lines

/-- A text that is not the one of a part, and still changes nothing when it is written. The newline in
    which they differ is left out: it is missing at the end of the whole, or there is one too many
    where a part ends with the last line. -/
def Redundant (lines : List Text) (place : Option Range) (t : Text) : Prop :=
  match place with
  | none => t.endsInNewline = false ∧ text lines = t ++ ['\n']
  | some r =>
    r.stop = endPoint lines ∧ (between lines r).endsInNewline = false ∧ t = between lines r ++ ['\n']

section Redundancy

variable {lines : List Text}

theorem endsInNewline_concat (t : Text) : Text.endsInNewline (t ++ ['\n']) = true := by
  rw [Text.endsInNewline, List.getLast?_concat]
  rfl

theorem withoutFinalNewline_concat (t : Text) : Text.withoutFinalNewline (t ++ ['\n']) = t := by
  rw [Text.withoutFinalNewline, if_pos (endsInNewline_concat t), List.dropLast_concat]

theorem eq_concat_of_endsInNewline {t : Text} (h : t.endsInNewline) :
    t = t.withoutFinalNewline ++ ['\n'] := by
  rw [Text.withoutFinalNewline, if_pos h]
  exact (List.dropLast_append_getLast? _ (beq_iff_eq.mp h)).symm

/-- Writing a text that is not the one of a part changes the lines unless it is redundant. -/
theorem withPart_eq_self_iff {place : Option Range} (hlines : Stored lines)
    (hpart : ∀ r ∈ place, IsPart lines r) {t : Text} (hne : t ≠ part lines place) :
    withPart lines place t = lines ↔ Redundant lines place t := by
  cases place with
  | none =>
      change Document.storedLines t = lines ↔ t.endsInNewline = false ∧ text lines = t ++ ['\n']
      have hstored := text_storedLines t
      constructor
      · -- A text that ends in a newline stands for itself, and another for itself with one.
        intro heq
        rw [heq] at hstored
        cases hnewline : t.endsInNewline with
        | true =>
            rw [hnewline, if_pos rfl] at hstored
            exact absurd hstored.symm hne
        | false =>
            rw [hnewline, if_neg Bool.false_ne_true] at hstored
            exact ⟨rfl, hstored⟩
      · rintro ⟨hnewline, htext⟩
        rw [hnewline, if_neg Bool.false_ne_true, ← htext] at hstored
        exact (stored_lines _).eq_of_text_eq hlines hstored
  | some r =>
      change t ≠ between lines r at hne
      change put lines r (fitted lines r t).lines = lines ↔ r.stop = endPoint lines ∧
        (between lines r).endsInNewline = false ∧ t = between lines r ++ ['\n']
      rw [(hpart r rfl).put_eq_self_iff hlines, fitted]
      by_cases hend : r.stop = endPoint lines ∧ (between lines r).endsInNewline = false
      · rw [if_pos hend]
        refine ⟨fun heq => ⟨hend.1, hend.2, ?_⟩, fun h => ?_⟩
        · -- The text differs, so it has lost a newline.
          rw [← heq]
          refine eq_concat_of_endsInNewline (Decidable.byContradiction fun hnewline => ?_)
          rw [Text.withoutFinalNewline, if_neg hnewline] at heq
          exact hne heq
        · rw [h.2.2, withoutFinalNewline_concat]
      · -- Elsewhere the text is written as it is.
        rw [if_neg hend]
        exact iff_of_false hne fun h => hend ⟨h.1, h.2.1⟩

end Redundancy

section Noting

variable {σ : Type}

/-- An editor that remembers what it was asked to write. -/
def noted (answer : σ → Request → Except RpcError Value × σ) (s : σ × List Request)
    (request : Request) : Except RpcError Value × σ × List Request :=
  ((answer s.1 request).1, (answer s.1 request).2,
    if request.isWrite then s.2 ++ [request] else s.2)

/-- The lines of a buffer, if certain writes have been asked for. -/
abbrev seen (writes : List Request) (view : σ → Option (List Text)) :
    σ × List Request → Option (List Text) :=
  within (·.2 = writes) (view ·.1)

variable {answer : σ → Request → Except RpcError Value × σ} {view : σ → Option (List Text)}
  {s : σ × List Request} {lines : List Text} {request : Request} {value : Value}

theorem Replies.noted_reading {writes : List Request} (hwrite : request.isWrite = false)
    (hs : s.2 = writes) (h : Replies answer view s.1 request value lines) :
    Replies (noted answer) (seen writes view) s request value lines := by
  rcases h with ⟨after, hanswer, hview⟩
  refine ⟨(after, writes), ?_, within_eq_some.mpr ⟨rfl, hview⟩⟩
  rw [noted, hanswer, hwrite, if_neg Bool.false_ne_true, hs]

theorem Replies.noted_writing (hwrite : request.isWrite = true) (hs : s.2 = [])
    (h : Replies answer view s.1 request value lines) :
    Replies (noted answer) (seen [request] view) s request value lines := by
  rcases h with ⟨after, hanswer, hview⟩
  refine ⟨(after, [request]), ?_, within_eq_some.mpr ⟨rfl, hview⟩⟩
  rw [noted, hanswer, if_pos hwrite, hs, List.nil_append]

theorem keeps_noted (h : Keeps answer view) (writes : List Request) :
    Keeps (noted answer) (seen writes view) := by
  intro s lines request hview hwrite
  rcases within_eq_some.mp hview with ⟨hs, hbase⟩
  refine within_eq_some.mpr ⟨?_, h s.1 lines request hbase hwrite⟩
  rwa [noted, hwrite, if_neg Bool.false_ne_true]

/-- Remembering does not keep an editor from doing what is documented. -/
theorem Attends.noted {marks : (Int × Int) × (Int × Int)} {d : Document}
    (h : Attends answer view marks d) (writes : List Request) :
    Attends (noted answer) (seen writes view) marks d where
  lineCount := fun hview hlines hcount =>
    let ⟨hs, hview⟩ := within_eq_some.mp hview
    (h.lineCount hview hlines hcount).noted_reading rfl hs
  getLines := fun first last hview hlines =>
    let ⟨hs, hview⟩ := within_eq_some.mp hview
    (h.getLines first last hview hlines).noted_reading rfl hs
  getText := fun hview hlines hp hq hle =>
    let ⟨hs, hview⟩ := within_eq_some.mp hview
    (h.getText hview hlines hp hq hle).noted_reading rfl hs
  getBytes := fun hview hlines hp hon hq hle =>
    let ⟨hs, hview⟩ := within_eq_some.mp hview
    let ⟨value, hvalue, hreply⟩ := h.getBytes hview hlines hp hon hq hle
    ⟨value, hvalue, hreply.noted_reading rfl hs⟩
  startMark := fun hview =>
    let ⟨hs, hview⟩ := within_eq_some.mp hview
    let ⟨value, hvalue, hreply⟩ := h.startMark hview
    ⟨value, hvalue, hreply.noted_reading rfl hs⟩
  stopMark := fun hview =>
    let ⟨hs, hview⟩ := within_eq_some.mp hview
    let ⟨value, hvalue, hreply⟩ := h.stopMark hview
    ⟨value, hvalue, hreply.noted_reading rfl hs⟩
  keeps := keeps_noted h.keeps writes

/-- The writes of a run with a certain result. -/
def runWrites (d : Document) (lines : List Text) (place : Option Range) (t : Text) :
    List Request :=
  if t = part lines place then [] else [d.writing lines place t]

theorem isWrite_writing (d : Document) (lines : List Text) (place : Option Range) (t : Text) :
    (d.writing lines place t).isWrite = true := by
  cases place <;> rfl

end Noting

section Run

variable {σ : Type} {answer : σ → Request → Except RpcError Value × σ}
  {view : σ → Option (List Text)} {m : Type → Type} [Monad m] [LawfulMonad m]

/-- A run in which something is not told writes nothing. Every other run writes once if the result of
    the pipeline differs from the text that was read, and otherwise not at all. What it writes is the
    part that it is for, and the lines are others afterwards unless the result is redundant. -/
theorem run_writes {d : Document} {marks : (Int × Int) × (Int × Int)}
    (hserves : Serves answer view d) (hattends : Attends answer view marks d) {s : σ}
    {lines : List Text} (hview : view s = some lines) (hlines : Stored lines)
    (hcount : (lines.length : Int) ≤ Int64.maxValue.toInt) (f : Formatter m) (settings : Settings)
    (style : Style) (selectionOnly : Bool) :
    let place := target lines selectionOnly d.commandRange marks
    let run := (f.lift.run (d.editor (serve (noted answer))) settings style selectionOnly).run.run
      (s, [])
    (∃ failure after, run = pure (.error failure, after) ∧ after.2 = [] ∧
      view after.1 = some lines) ∨
    ∃ after : Except FixerFailure Text → σ × List Request,
      (run = (fun outcome => (.ok (), after outcome)) <$>
        Pipeline.transform f.libraries (part lines place) style settings.usePrettier
          (d.path.bind Path.parent?)) ∧
      ∀ outcome : Except FixerFailure Text,
        let t := outcome.toOption.getD (part lines place)
        (t = part lines place → (after outcome).2 = [] ∧ view (after outcome).1 = some lines) ∧
        (t ≠ part lines place → (after outcome).2 = [d.writing lines place t] ∧
          view (after outcome).1 = some (withPart lines place t) ∧
          (withPart lines place t = lines ↔ Redundant lines place t)) := by
  intro place run
  have hplace : ∀ r ∈ place, IsPart lines r := fun r hr => isPart_of_target hr
  -- Reading is seen with nothing written, and writing with the one request for it.
  have hstart : seen [] view (s, []) = some lines := within_eq_some.mpr ⟨rfl, hview⟩
  have hcases := (hattends.noted []).run_cases hstart hlines hcount f settings style selectionOnly
    (fun t => seen (runWrites d lines place t) view)
    (fun t => keeps_noted hattends.keeps _)
    (fun t ht s' hview' => by rw [runWrites, if_pos ht]; exact hview')
    (fun t ht s' hview' => by
      rcases within_eq_some.mp hview' with ⟨hs, hbase⟩
      rw [runWrites, if_neg ht]
      exact (hserves.replies_writing hbase hlines hplace t).noted_writing
        (isWrite_writing d lines place t) hs)
  rcases hcases with ⟨failure, after, hrun, hview'⟩ | ⟨after, hrun, hviews⟩
  · rcases within_eq_some.mp hview' with ⟨hwrites, hbase⟩
    exact .inl ⟨failure, after, hrun, hwrites, hbase⟩
  · refine .inr ⟨after, hrun, fun outcome => ?_⟩
    rcases within_eq_some.mp (hviews outcome) with ⟨hwrites, hbase⟩
    refine ⟨fun ht => ?_, fun ht => ?_⟩
    · rw [runWrites, if_pos ht] at hwrites
      rw [runLines, if_pos ht] at hbase
      exact ⟨hwrites, hbase⟩
    · rw [runWrites, if_neg ht] at hwrites
      rw [runLines, if_neg ht] at hbase
      exact ⟨hwrites, hbase, withPart_eq_self_iff hlines hplace ht⟩

end Run

section Examples

/-- A formatter whose fixer always gives the same text. -/
def fixing (t : Text) : Formatter Id where
  tree := .empty
  source := .fixed {}
  libraries := ⟨fun text _ _ => .ok text, fun _ _ _ => .ok ⟨[⟨some t⟩]⟩⟩

/-- An instance with one line. -/
def oneLine : Instance :=
  { lines := ["a".toList] }

/-- A document of that instance, for a command with or without a range. -/
def oneLineDocument (commandRange : Option (Int × Int)) : Document :=
  { buffer := .ofNumber 1, number := 1, window := none, path := none, commandRange }

/-- What a run with a certain result leaves, and what it has written. -/
def oneLineRun (t : Text) (commandRange : Option (Int × Int)) :
    Except Failure Unit × Instance × List Request :=
  ((fixing t).lift.run
    ((oneLineDocument commandRange).editor (serve (m := Id) (noted Instance.answer))) {} .standard
    true).run.run (oneLine, [])

theorem run_writes_oneLine :
    LawfulMonad Id ∧
      Serves Instance.answer (Instance.marked 1 ((0, 0), (0, 0))) (oneLineDocument none) ∧
      Attends Instance.answer (Instance.marked 1 ((0, 0), (0, 0))) ((0, 0), (0, 0))
        (oneLineDocument none) ∧
      Instance.marked 1 ((0, 0), (0, 0)) oneLine = some oneLine.lines ∧ Stored oneLine.lines ∧
      (oneLine.lines.length : Int) ≤ Int64.maxValue.toInt ∧
      ∃ after, oneLineRun "b".toList none = (.ok (), after) ∧
        after.2 = [.setLines (.ofNumber 1) ["b".toList]] ∧
        Instance.marked 1 ((0, 0), (0, 0)) after.1 = some ["b".toList] := by
  have hserves : Serves Instance.answer (Instance.marked 1 ((0, 0), (0, 0)))
      (oneLineDocument none) := Instance.serves_marked (d := oneLineDocument none) rfl _
  have hattends : Attends Instance.answer (Instance.marked 1 ((0, 0), (0, 0))) ((0, 0), (0, 0))
      (oneLineDocument none) := Instance.attends (d := oneLineDocument none) rfl rfl rfl
  have hstored : Stored oneLine.lines := stored_lines "a".toList
  have hcount : (oneLine.lines.length : Int) ≤ Int64.maxValue.toInt := by decide
  refine ⟨inferInstance, hserves, hattends, rfl, hstored, hcount, ?_⟩
  rcases run_writes hserves hattends (s := oneLine) rfl hstored hcount (fixing "b".toList) {}
    .standard true with ⟨failure, after, hrun, -⟩ | ⟨after, hrun, hafter⟩
  · -- Every request of this run is answered with a value.
    have hok : (oneLineRun "b".toList none).1 = .ok () := rfl
    have herror : (oneLineRun "b".toList none).1 = .error failure := congrArg Prod.fst hrun
    rw [hok] at herror
    cases herror
  · have hdiffers := (hafter (.ok "b".toList)).2 (by decide)
    exact ⟨after (.ok "b".toList), hrun, hdiffers.1, hdiffers.2.1⟩

/-- Both cases of a write that changes nothing: the whole text without its newline, and the last line
    with one. -/
theorem run_writes_redundant :
    (∃ after, oneLineRun "a".toList none = (.ok (), after) ∧
      after.2 = [.setLines (.ofNumber 1) ["a".toList]] ∧ after.1.lines = oneLine.lines) ∧
    ∃ after, oneLineRun "a\n".toList (some (1, 1)) = (.ok (), after) ∧
      after.2 = [.runScript .setText [.int 1, .int 0, .int 0, .int 0, .int 1, .str "a".toList]] ∧
      after.1.lines = oneLine.lines :=
  ⟨⟨_, rfl, rfl, rfl⟩, ⟨_, rfl, rfl, rfl⟩⟩

end Examples

end Restyle.Neovim
