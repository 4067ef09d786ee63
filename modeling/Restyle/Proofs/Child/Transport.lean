import Restyle.Child
import Restyle.Proofs.Effects
import Restyle.Proofs.Json.Printing
import Restyle.Proofs.Text.Utf8

/-!
# Texts Through a Process

What a text becomes on its way to a child process and back.

A text is printed into a request, the request is turned into bytes, and the other side reads the bytes as
JSON. On the way back it is the other side that chooses how the text is spelled. It may escape any
character, or none that need not be, and put blanks where it likes. Neither side knows more of the other
than that it uses documents of the same values. `IsDocument` is that relation: bytes stand for a value in
one of the ways in which it can be written. The request is a document, and any document of a reply is
read as the reply, so a text is the same on both sides, whatever characters it consists of.

A process that echoes is one that reads the request and replies with the text in it. Processes have
effects, so what comes of a call is said of all its results.

## Main definitions

* `Json.IsDocument`: Bytes stand for a value.
* `Command.request`: What a process reads from its input.
* `judged`: What a process is taken to answer.
* `Echoes`: Every process replies with the text of its request.

## Theorems

* `IsDocument.decode_eq`: A document is decoded by its value.
* `call_eq`: A call hands over a document of its request.
* `verdict_lintReply`, `verdict_prettierReply`: The text of a reply is the answer.
* `Echoes.transform`: With processes that echo, the pipeline changes nothing.
* `text_survives`: All of this together.
-/

namespace Restyle

namespace Json

/-- Bytes are a document of a value: one of the texts that stand for it, with blanks around it. -/
def IsDocument (bytes : List UInt8) (j : Json) : Prop :=
  ∃ s s' rest, bytes = Text.toUtf8 s ∧ Blanks s s' ∧ Writes s' j.form rest ∧ Blanks rest []

/-- A document is decoded by the value that it stands for. -/
theorem IsDocument.decode_eq {α : Type} {decoder : Decoder α} {bytes : List UInt8} {j : Json}
    (h : IsDocument bytes j) : decode decoder (Utf8.pieces bytes) = decoder j.form := by
  rcases h with ⟨s, s', rest, rfl, before, written, behind⟩
  rw [Utf8.pieces_toUtf8]
  exact decodeText_writes before written behind

/-- A value on one line is a document of it. -/
theorem isDocument_compact {j : Json} (h : j.numberless = true) :
    IsDocument (Text.toUtf8 j.compact) j := by
  have hwritten := prints_compact.writes j h 0 []
  rw [List.append_nil] at hwritten
  exact ⟨_, _, _, rfl, .none, hwritten, .none⟩

end Json

namespace Child

open Json (Decoder IsDocument)

/-- What a process reads from its input. -/
def Command.request (c : Command) : Except Json.Fault Json :=
  Json.decode (Decoder.value Json.maxDepth) (Utf8.pieces c.input.toUtf8)

/-- The reply of a fixer with a text. -/
def lintReply (t : Text) : Json :=
  .object [("ok".toList,
    .object [("results".toList, .array [.object [("output".toList, .string t)]])])]

/-- The reply of the pre-formatter with a text. -/
def prettierReply (t : Text) : Json :=
  .object [("ok".toList, .string t)]

/-- What a process that was to be started is taken to answer. -/
def judged {α : Type} (program : Text) (payload : Decoder α) :
    Except FileError Output → Except AdapterError α
  | .ok output => verdict payload output
  | .error cause => .error (.spawn program cause)

/-! ### Requests -/

theorem value_lintRequest (package text : Text) :
    Decoder.value Json.maxDepth (lintRequest package text).form = .ok (lintRequest package text) :=
  rfl

theorem value_prettierRequest (text : Text) (options : PrettierOptions) :
    Decoder.value Json.maxDepth (prettierRequest text options).form =
      .ok (prettierRequest text options) :=
  rfl

/-! ### Replies -/

theorem verdict_lintReply {stdout stderr : List UInt8} {t : Text}
    (h : IsDocument stdout (lintReply t)) :
    verdict LintReport.decoder { status := 0, stdout, stderr } = .ok ⟨[⟨some t⟩]⟩ := by
  rw [verdict]
  simp only [h.decode_eq]
  rfl

theorem verdict_prettierReply {stdout stderr : List UInt8} {t : Text}
    (h : IsDocument stdout (prettierReply t)) :
    verdict Decoder.text { status := 0, stdout, stderr } = .ok t := by
  rw [verdict]
  simp only [h.decode_eq]
  rfl

/-! ### Calls -/

section Calls

variable {m : Type → Type} [Monad m] [LawfulMonad m]

/-- A call hands over a document of its request, and judges what comes back. -/
theorem call_eq {α : Type} (spawn : Command → m (Except FileError Output)) (tree : FileTree)
    (program script : Text) {request : Json} (payload : Decoder α) (workdir : Option Path)
    (hnumber : request.numberless = true)
    (hvalue : Decoder.value Json.maxDepth request.form = .ok request) :
    ∃ c : Command, c.script = script ∧ IsDocument c.input.toUtf8 request ∧ c.request = .ok request ∧
      call spawn tree program script request payload workdir =
        judged program payload <$> spawn c := by
  refine ⟨{ program, script, input := request.compact, workdir := workdir.filter tree.isDirectory },
    rfl, Json.isDocument_compact hnumber, ?_, ?_⟩
  · rw [Command.request, (Json.isDocument_compact hnumber).decode_eq, hvalue]
  · rw [call, map_eq_pure_bind]
    congr 1
    funext outcome
    cases outcome <;> rfl

variable (spawn : Command → m (Except FileError Output)) (tree : FileTree) (program : Text)

theorem lintFix_eq (package text : Text) (workdir : Option Path) :
    ∃ c : Command, c.script = Script.lintFix ∧
      IsDocument c.input.toUtf8 (lintRequest package text) ∧
      c.request = .ok (lintRequest package text) ∧
      (libraries spawn tree program).lintFix package text workdir =
        judged program LintReport.decoder <$> spawn c :=
  call_eq spawn tree program Script.lintFix LintReport.decoder workdir rfl
    (value_lintRequest package text)

theorem prettify_eq (text : Text) (options : PrettierOptions) (workdir : Option Path) :
    ∃ c : Command, c.script = Script.prettier ∧
      IsDocument c.input.toUtf8 (prettierRequest text options) ∧
      c.request = .ok (prettierRequest text options) ∧
      (libraries spawn tree program).prettify text options workdir =
        judged program .text <$> spawn c :=
  call_eq spawn tree program Script.prettier .text workdir rfl (value_prettierRequest text options)

/-! ### Echoes -/

/-- Every process ends well and replies with the text of its request, in any of the ways in which that
    can be written. -/
structure Echoes (spawn : Command → m (Except FileError Output)) : Prop where
  lint : ∀ {c : Command} {package text : Text},
    c.request = .ok (.object [("package".toList, .string package), ("text".toList, .string text)]) →
    Always (spawn c) fun r => ∃ stdout stderr, r = .ok { status := 0, stdout, stderr } ∧
      IsDocument stdout (lintReply text)
  prettier : ∀ {c : Command} {text : Text} {options : PrettierOptions},
    c.request = .ok (.object [("text".toList, .string text),
      ("options".toList, .object [("parser".toList, .string options.parser),
        ("semi".toList, .bool options.semicolons),
        ("singleQuote".toList, .bool options.singleQuotes)])]) →
    Always (spawn c) fun r => ∃ stdout stderr, r = .ok { status := 0, stdout, stderr } ∧
      IsDocument stdout (prettierReply text)

variable {spawn}

theorem Echoes.lintFix (h : Echoes spawn) (package text : Text) (workdir : Option Path) :
    Always ((libraries spawn tree program).lintFix package text workdir)
      (· = .ok ⟨[⟨some text⟩]⟩) := by
  rcases lintFix_eq spawn tree program package text workdir with ⟨c, -, -, hrequest, heq⟩
  rw [heq]
  refine (h.lint hrequest).map ?_
  rintro _ ⟨stdout, stderr, rfl, hstdout⟩
  exact verdict_lintReply hstdout

theorem Echoes.prettify (h : Echoes spawn) (text : Text) (options : PrettierOptions)
    (workdir : Option Path) :
    Always ((libraries spawn tree program).prettify text options workdir) (· = .ok text) := by
  rcases prettify_eq spawn tree program text options workdir with ⟨c, -, -, hrequest, heq⟩
  rw [heq]
  refine (h.prettier hrequest).map ?_
  rintro _ ⟨stdout, stderr, rfl, hstdout⟩
  exact verdict_prettierReply hstdout

/-- With processes that echo, the pre-formatter changes nothing. -/
theorem Echoes.preformat (h : Echoes spawn) (text : Text) (style : Style) (usePrettier : Bool)
    (workdir : Option Path) :
    Always (Pipeline.preformat (libraries spawn tree program) text style usePrettier workdir)
      (· = text) := by
  unfold Pipeline.preformat
  cases usePrettier with
  | false => exact always_pure rfl
  | true =>
      refine (h.prettify tree program text _ workdir).bind ?_
      rintro _ rfl
      exact always_pure rfl

/-- With processes that echo, neither does the pipeline. -/
theorem Echoes.transform (h : Echoes spawn) (text : Text) (style : Style) (usePrettier : Bool)
    (workdir : Option Path) :
    Always (Pipeline.transform (libraries spawn tree program) text style usePrettier workdir)
      (· = .ok text) := by
  unfold Pipeline.transform
  cases style.package? with
  | none => exact always_pure rfl
  | some package =>
      refine (h.preformat tree program text style usePrettier workdir).bind ?_
      rintro _ rfl
      refine (h.lintFix tree program package _ workdir).bind ?_
      rintro _ rfl
      exact always_pure rfl

end Calls

/-- A text is handed over and taken back as it is. What a process is given is a document of an object with
    the package and the text, or with the text and the options, and is read as that object. A process that
    ends well with any document of the reply is taken to answer with the text in it. With processes that
    echo, the pipeline gives the text that it was given. -/
theorem text_survives {m : Type → Type} [Monad m] [LawfulMonad m]
    (spawn : Command → m (Except FileError Output)) (tree : FileTree) (program : Text) :
    (∀ package text workdir, ∃ (c : Command) (request : Json),
      request = .object [("package".toList, .string package), ("text".toList, .string text)] ∧
      c.script = Script.lintFix ∧ IsDocument c.input.toUtf8 request ∧ c.request = .ok request ∧
      (libraries spawn tree program).lintFix package text workdir =
        judged program LintReport.decoder <$> spawn c) ∧
    (∀ text options workdir, ∃ (c : Command) (request : Json),
      request = .object [("text".toList, .string text),
        ("options".toList, .object [("parser".toList, .string options.parser),
          ("semi".toList, .bool options.semicolons),
          ("singleQuote".toList, .bool options.singleQuotes)])] ∧
      c.script = Script.prettier ∧ IsDocument c.input.toUtf8 request ∧ c.request = .ok request ∧
      (libraries spawn tree program).prettify text options workdir =
        judged program .text <$> spawn c) ∧
    (∀ text stdout stderr, IsDocument stdout (lintReply text) →
      ∃ report, judged program LintReport.decoder (.ok { status := 0, stdout, stderr }) = .ok report ∧
        report.fixedOutput = some text) ∧
    (∀ text stdout stderr, IsDocument stdout (prettierReply text) →
      judged program Decoder.text (.ok { status := 0, stdout, stderr }) = .ok text) ∧
    (Echoes spawn → ∀ text style usePrettier workdir,
      Always (Pipeline.transform (libraries spawn tree program) text style usePrettier workdir)
        (· = .ok text)) := by
  refine ⟨?_, ?_, ?_, ?_, ?_⟩
  · intro package text workdir
    obtain ⟨c, hc⟩ := lintFix_eq spawn tree program package text workdir
    exact ⟨c, _, rfl, hc⟩
  · intro text options workdir
    obtain ⟨c, hc⟩ := prettify_eq spawn tree program text options workdir
    exact ⟨c, _, rfl, hc⟩
  · intro text stdout stderr h
    exact ⟨_, verdict_lintReply h, rfl⟩
  · intro text stdout stderr h
    exact verdict_prettierReply h
  · intro h
    exact h.transform tree program

section Examples

/-- A process that reads its request and echoes the text on one line. -/
def echo (c : Command) : Id (Except FileError Output) :=
  match c.request with
  | .ok request =>
    match request.get? "text".toList, request.get? "options".toList with
    | some (.string t), some _ =>
      .ok { status := 0, stdout := Text.toUtf8 (prettierReply t).compact, stderr := [] }
    | some (.string t), none =>
      .ok { status := 0, stdout := Text.toUtf8 (lintReply t).compact, stderr := [] }
    | _, _ => .error .permissionDenied
  | .error _ => .error .permissionDenied

theorem echoes_echo : Echoes echo where
  lint := by
    intro c package text hrequest
    have hecho : echo c =
        .ok { status := 0, stdout := Text.toUtf8 (lintReply text).compact, stderr := [] } := by
      rw [echo, hrequest]
      rfl
    rw [hecho]
    exact always_pure ⟨_, _, rfl, Json.isDocument_compact rfl⟩
  prettier := by
    intro c text options hrequest
    have hecho : echo c =
        .ok { status := 0, stdout := Text.toUtf8 (prettierReply text).compact, stderr := [] } := by
      rw [echo, hrequest]
      rfl
    rw [hecho]
    exact always_pure ⟨_, _, rfl, Json.isDocument_compact rfl⟩

/-- A reply with a control character and with a character in two units, and with blanks in it. -/
def spelledReply : Text :=
  ['\x7b', '"', 'o', 'k', '"', ' ', ':', '\n', '"', '\\', 'u', '0', '0', '0', '0', '\\', 'u', 'D', '8',
    '3', 'D', '\\', 'u', 'd', 'e', '0', '0', '"', '\x7d', '\n']

theorem isDocument_spelledReply :
    IsDocument (Text.toUtf8 spelledReply) (prettierReply "\x00😀".toList) := by
  have hzero : Json.IsUnit '0' '0' '0' '0' 0 := ⟨0, 0, 0, 0, rfl, rfl, rfl, rfl, rfl⟩
  have hhigh : Json.IsUnit 'D' '8' '3' 'D' 0xD83D := ⟨13, 8, 3, 13, rfl, rfl, rfl, rfl, rfl⟩
  have hlow : Json.IsUnit 'd' 'e' '0' '0' 0xDE00 := ⟨13, 14, 0, 0, rfl, rfl, rfl, rfl, rfl⟩
  have hface : Char.ofNat ((0xD83D - 0xD800) * 0x400 + (0xDE00 - 0xDC00) + 0x10000) = '😀' := by
    decide
  have hname : ∀ rest, Json.Spells ('o' :: 'k' :: '"' :: rest) "ok".toList rest := fun _ =>
    .raw (by decide) (by decide) (by decide) (.raw (by decide) (by decide) (by decide) .close)
  have hvalue : ∀ rest, Json.Spells ('\\' :: 'u' :: '0' :: '0' :: '0' :: '0' :: '\\' :: 'u' :: 'D' ::
      '8' :: '3' :: 'D' :: '\\' :: 'u' :: 'd' :: 'e' :: '0' :: '0' :: '"' :: rest)
      "\x00😀".toList rest := by
    intro rest
    have hpair := Json.Spells.pair hhigh hlow (by decide) (by decide) (@Json.Spells.close rest)
    rw [hface] at hpair
    exact .unit hzero (.inl (by decide)) hpair
  refine ⟨spelledReply, spelledReply, ['\n'], rfl, .none, ?_, .blank (by decide) .none⟩
  exact .object .none (.last (hname _) (.blank (c := ' ') (by decide) .none)
    (.blank (c := '\n') (by decide) .none) (.string (hvalue _)) .none)

theorem text_survives_echo :
    LawfulMonad Id ∧ Echoes echo ∧
      IsDocument (Text.toUtf8 spelledReply) (prettierReply "\x00😀".toList) ∧
      judged [] Decoder.text
        (.ok { status := 0, stdout := Text.toUtf8 spelledReply, stderr := [] }) =
          .ok "\x00😀".toList ∧
      Pipeline.transform (libraries echo .empty []) "a;\\\"\x00😀\n".toList .standard true
        none = .ok "a;\\\"\x00😀\n".toList := by
  rcases text_survives echo .empty [] with ⟨-, -, -, hreply, htransform⟩
  refine ⟨inferInstance, echoes_echo, isDocument_spelledReply,
    hreply _ _ _ isDocument_spelledReply, ?_⟩
  -- Here a computation is its only result.
  rcases htransform echoes_echo "a;\\\"\x00😀\n".toList .standard true none with ⟨result, hresult⟩
  exact hresult.symm.trans result.2

end Examples

end Child

end Restyle
