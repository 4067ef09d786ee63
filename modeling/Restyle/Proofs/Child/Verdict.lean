import Mathlib.Data.List.TakeWhile
import Restyle.Proofs.Child.Transport
import Restyle.Proofs.Json.Shape

/-!
# The Verdict on a Process

What is made of a process that has ended, whatever its status, its output and its error stream hold.

A process that cannot be talked to until its end is not looked at. One that fails is told by its status
and its error stream alone. Of a process that ends well the whole output counts. It has to be one document
of a reply, and then the reply's error comes first, then its result, and a reply with neither is an error
too. So there are six answers, and each is said here by what the bytes are: a document is one of the
grammar, and a reply is an outline of a certain shape.

A reply and what it carries are records. An object may leave out any field and may have members that the
record does not know, whose values are passed over. What is passed over is still held to the grammar, but
its strings are not read, so they may hold bytes that are not UTF-8. A document with such bytes is no text,
and is a reply all the same.

## Main definitions

* `LintResult.Holds`, `LintReport.Holds`, `Reply.Holds`: The shapes of results, reports and replies.
* `IsReply`: Bytes as a whole are one document of a reply.
* `Trims`: A message is a text less the blanks at both ends.
* `Judged`: What is answered for a process that has ended.

## Theorems

* `Reply.decoder_reads`: The decoder of replies reads their shape.
* `verdict_judged`: The verdict is the answer.
* `libraries_judge`: Both libraries answer by it.
-/

namespace Restyle

open Json (Decoder Outline Items Members IsText Given IsList SoleField)

/-- An outline is the result for one file. -/
def LintResult.Holds (o : Outline) (r : LintResult) : Prop :=
  SoleField "output".toList (Given IsText) none o r.output

/-- An outline is a report. -/
def LintReport.Holds (o : Outline) (r : LintReport) : Prop :=
  SoleField "results".toList (IsList LintResult.Holds) [] o r.results

theorem LintReport.resultDecoder_reads : LintReport.resultDecoder.Reads LintResult.Holds :=
  Json.soleField_reads "output".toList (Json.optional_reads Json.text_reads nofun)
    (fun v (r : LintResult) => { r with output := v }) LintResult.output (fun _ _ => rfl)
    (fun h => congrArg LintResult.mk h) {}

theorem LintReport.decoder_reads : LintReport.decoder.Reads LintReport.Holds :=
  Json.soleField_reads "results".toList (Json.list_reads resultDecoder_reads)
    (fun v (r : LintReport) => { r with results := v }) LintReport.results (fun _ _ => rfl)
    (fun h => congrArg LintReport.mk h) {}

theorem LintReport.not_holds_null (r : LintReport) : ¬ LintReport.Holds .null r := by
  rintro ⟨⟩

namespace Child

variable {α : Type}

/-- An outline is a reply: an object, or an array of both parts. -/
inductive Reply.Holds (holds : Outline → α → Prop) : Outline → Reply α → Prop where
  | object {members : Members} {r : Reply α} (names : members.Readable)
      (ok : members.Gives "ok".toList (Given holds) none r.ok)
      (error : members.Gives "error".toList (Given IsText) none r.error) :
      Holds holds (.object members) r
  | array {o o' : Outline} {r : Reply α} (ok : Given holds o r.ok) (error : Given IsText o' r.error) :
      Holds holds (.array (.item o (.item o' .close))) r

section Decoder

variable (payload : Decoder α)

/-- The field for what was asked for. -/
def okField : Json.Field (Reply α) :=
  .putting "ok".toList false payload.optional fun v r => { r with ok := v }

/-- The field for an error. -/
def errorField : Json.Field (Reply α) :=
  .putting "error".toList false Decoder.text.optional fun v r => { r with error := v }

theorem okField_stores :
    (okField payload).Stores [okField payload, errorField] payload.optional
      (fun v r => { r with ok := v }) Reply.ok := by
  refine ⟨rfl, fun _ => rfl, fun _ _ => rfl, fun g hg hname o u r hset => ?_⟩
  rcases List.mem_pair.mp hg with rfl | rfl
  · exact absurd rfl hname
  · rcases Json.Field.putting_set.mp hset with ⟨v, -, rfl⟩
    rfl

theorem errorField_stores :
    (errorField : Json.Field (Reply α)).Stores [okField payload, errorField] Decoder.text.optional
      (fun v r => { r with error := v }) Reply.error := by
  refine ⟨rfl, fun _ => rfl, fun _ _ => rfl, fun g hg hname o u r hset => ?_⟩
  rcases List.mem_pair.mp hg with rfl | rfl
  · rcases Json.Field.putting_set.mp hset with ⟨v, -, rfl⟩
    rfl
  · exact absurd rfl hname

variable {payload} {holds : Outline → α → Prop}

theorem Reply.ext {r r' : Reply α} (hok : r.ok = r'.ok) (herror : r.error = r'.error) : r = r' := by
  cases r
  cases r'
  exact congr (congrArg Reply.mk hok) herror

/-- A reply in an array has both parts and nothing else. -/
theorem record_items {items : Items} {r : Reply α} :
    items.record [okField payload, errorField] {} = .ok r ↔
      ∃ o o', items = .item o (.item o' .close) ∧ payload.optional o = .ok r.ok ∧
        Decoder.text.optional o' = .ok r.error := by
  constructor
  · intro h
    cases items with
    | close => exact nomatch h
    | stop fault => exact nomatch h
    | item o rest =>
        rcases Items.record_putting.mp h with ⟨v, hv, h⟩
        cases rest with
        | close => exact nomatch h
        | stop fault => exact nomatch h
        | item o' rest =>
            rcases Items.record_putting.mp h with ⟨v', hv', h⟩
            rcases Items.record_nil.mp h with ⟨rfl, rfl⟩
            exact ⟨o, o', rfl, hv, hv'⟩
  · rintro ⟨o, o', rfl, hok, herror⟩
    refine Items.record_putting.mpr ⟨r.ok, hok, Items.record_putting.mpr ⟨r.error, herror, ?_⟩⟩
    exact Items.record_nil.mpr ⟨rfl, rfl⟩

/-- A reply in an object has what is given for its parts. -/
theorem record_members (hok : payload.optional.Reads (Given holds))
    (herror : Decoder.text.optional.Reads (Given IsText)) {members : Members} {r : Reply α} :
    members.record [okField payload, errorField] [] {} = .ok r ↔
      members.skim = .ok () ∧ members.Readable ∧ members.Gives "ok".toList (Given holds) none r.ok ∧
        members.Gives "error".toList (Given IsText) none r.error := by
  have hrecord := Members.record_eq_ok_iff {} r members
    (fun r => members.Gives "ok".toList (payload.optional · = .ok ·) none r.ok ∧
      members.Gives "error".toList (Decoder.text.optional · = .ok ·) none r.error)
    (List.forall_mem_cons.mpr ⟨fun o u => Json.Field.skim_of_set_putting hok,
      List.forall_mem_singleton.mpr fun o u => Json.Field.skim_of_set_putting herror⟩)
    (fun r' hr' => by
      have hgivesOk := Members.gives_of_record (okField_stores payload) hr'
      have hgivesError := Members.gives_of_record (errorField_stores payload) hr'
      exact ⟨hgivesOk.1, hgivesError.1⟩)
    (fun hgives => List.forall_mem_cons.mpr ⟨hgives.1.settable,
      List.forall_mem_singleton.mpr hgives.2.settable⟩)
    fun hgives hgives' => Reply.ext (hgives.1.unique hgives'.1) (hgives.2.unique hgives'.2)
  refine hrecord.trans (and_congr_right fun hskim => and_congr_right fun _ => ?_)
  exact and_congr (Members.gives_iff hok hskim) (Members.gives_iff herror hskim)

/-- The decoder of replies reads their shape. -/
theorem Reply.decoder_reads (h : payload.Reads holds) (hnull : ∀ a, ¬ holds .null a) :
    (Reply.decoder payload).Reads (Reply.Holds holds) := by
  have hok := Json.optional_reads h hnull
  have herror : Decoder.text.optional.Reads (Given IsText) := Json.optional_reads Json.text_reads nofun
  intro o r
  cases o with
  | object members =>
      change members.record [okField payload, errorField] [] {} = .ok r ↔ _
      rw [record_members hok herror]
      refine and_congr_right fun hskim => ?_
      constructor
      · rintro ⟨hnames, hgivesOk, hgivesError⟩
        exact .object hnames hgivesOk hgivesError
      · rintro ⟨hnames, hgivesOk, hgivesError⟩
        exact ⟨hnames, hgivesOk, hgivesError⟩
  | array items =>
      change items.record [okField payload, errorField] {} = .ok r ↔ _
      rw [record_items]
      constructor
      · rintro ⟨o, o', rfl, ho, ho'⟩
        rcases (hok o _).mp ho with ⟨hskim, hholds⟩
        rcases (herror o' _).mp ho' with ⟨hskim', hholds'⟩
        have hrest : (Items.item o' .close).skim = .ok () := Items.skim_item.mpr ⟨hskim', rfl⟩
        exact ⟨Items.skim_item.mpr ⟨hskim, hrest⟩, .array hholds hholds'⟩
      · rintro ⟨hskim, hholds⟩
        rcases hholds with ⟨ho, ho'⟩ | ⟨ho, ho'⟩
        rcases Items.skim_item.mp hskim with ⟨hfirst, hrest⟩
        rcases Items.skim_item.mp hrest with ⟨hsecond, -⟩
        exact ⟨_, _, rfl, (hok _ _).mpr ⟨hfirst, ho⟩, (herror _ _).mpr ⟨hsecond, ho'⟩⟩
  | _ =>
      constructor
      · exact nofun
      · rintro ⟨-, ⟨⟩⟩

end Decoder

/-! ### Verdicts -/

/-- Bytes as a whole are one document of a reply. -/
def IsReply (holds : Outline → α → Prop) (bytes : List UInt8) (r : Reply α) : Prop :=
  ∃ o, Json.Document (Utf8.pieces bytes) o ∧ Reply.Holds holds o r

/-- A message is a text less the blanks at both ends. -/
def Trims (t message : Text) : Prop :=
  ∃ before after, t = before ++ message ++ after ∧ (∀ c ∈ before ++ after, isBlank c = true) ∧
    (∀ c ∈ message.head?, isBlank c = false) ∧ ∀ c ∈ message.getLast?, isBlank c = false

/-- A process has got its request and has ended with status zero. -/
structure Output.EndsWell (output : Output) : Prop where
  heard : output.interruption? = none
  status : output.status = 0

/-- What is answered for a process that has ended. -/
structure Judged (holds : Outline → α → Prop) (output : Output) (answer : Except AdapterError α) :
    Prop where
  /-- If the request could not be passed on, nothing else counts. -/
  transfer : ∀ {cause : FileError}, output.interruption? = some cause →
    answer = .error (.transfer cause)
  /-- A status other than zero counts, whatever the output is. -/
  exit : output.interruption? = none → output.status ≠ 0 →
    ∃ message, Trims (Utf8.decodeLossy output.stderr) message ∧
      answer = .error (.exit output.status message)
  /-- With status zero the output has to be one reply as a whole. -/
  reply : output.EndsWell →
    ((∃ fault, answer = .error (.reply fault)) ↔ ¬ ∃ r, IsReply holds output.stdout r)
  /-- The output is one reply at most. -/
  unique : ∀ {r r' : Reply α}, IsReply holds output.stdout r → IsReply holds output.stdout r' → r = r'
  /-- An error in the reply comes first, whatever stands beside it. -/
  library : output.EndsWell → ∀ {r : Reply α}, IsReply holds output.stdout r →
    ∀ {message : Text}, r.error = some message → answer = .error (.library message)
  /-- A result without an error is the answer. -/
  ok : output.EndsWell → ∀ {r : Reply α}, IsReply holds output.stdout r → r.error = none →
    ∀ {a : α}, r.ok = some a → answer = .ok a
  /-- A reply with neither is an error, too. -/
  empty : output.EndsWell → ∀ {r : Reply α}, IsReply holds output.stdout r → r.error = none →
    r.ok = none → answer = .error (.library "empty reply".toList)
  /-- Nothing else is accepted. -/
  accepted : ∀ {a : α}, answer = .ok a → output.EndsWell ∧
    ∃ r, IsReply holds output.stdout r ∧ r.error = none ∧ r.ok = some a

theorem isBlank_head?_trimStart {t : Text} : ∀ c ∈ (Text.trimStart t).head?, isBlank c = false := by
  intro c hc
  have hnot := List.head?_dropWhile_not isBlank t
  rw [Text.trimStart] at hc
  rw [hc] at hnot
  simpa using hnot

theorem trims_trim (t : Text) : Trims t t.trim := by
  have hsplit : ∀ u : Text, u.takeWhile isBlank ++ u.trimStart = u := fun _ =>
    List.takeWhile_append_dropWhile
  have hfront := (hsplit t).symm
  have hback : t.trimStart = t.trim ++ (t.trimStart.reverse.takeWhile isBlank).reverse := by
    rw [Text.trim, ← List.reverse_append, hsplit, List.reverse_reverse]
  -- The blanks in front go first, and those behind are what is left of the rest.
  refine ⟨_, _, by rw [List.append_assoc, ← hback]; exact hfront, ?_, ?_, ?_⟩
  · intro c hc
    rcases List.mem_append.mp hc with hc | hc
    · exact List.mem_takeWhile_imp hc
    · exact List.mem_takeWhile_imp (List.mem_reverse.mp hc)
  · intro c hc
    refine isBlank_head?_trimStart (t := t) c ?_
    rw [hback]
    exact List.mem_head?_append_of_mem_head? hc
  · intro c hc
    rw [Text.trim, List.getLast?_reverse] at hc
    exact isBlank_head?_trimStart c hc

section Verdict

variable {payload : Decoder α} {holds : Outline → α → Prop}

theorem isReply_iff (h : payload.Reads holds) (hnull : ∀ a, ¬ holds .null a) {bytes : List UInt8}
    {r : Reply α} :
    IsReply holds bytes r ↔ Json.decode (Reply.decoder payload) (Utf8.pieces bytes) = .ok r := by
  have hreads := Reply.decoder_reads h hnull
  rw [Json.decode_eq_ok_iff fun {o a} ho => ((hreads o a).mp ho).1]
  refine exists_congr fun o => and_congr_right fun hdocument => ?_
  have hskim : o.skim = .ok () := hdocument.skim
  rw [hreads o r]
  exact (and_iff_right hskim).symm

theorem verdict_of_endsWell {output : Output} (hends : output.EndsWell) :
    verdict payload output =
      match Json.decode (Reply.decoder payload) (Utf8.pieces output.stdout) with
      | .ok r => r.outcome
      | .error fault => .error (.reply fault) := by
  rw [verdict, hends.heard]
  exact if_neg (not_not_intro hends.status)

theorem verdict_of_isReply (h : payload.Reads holds) (hnull : ∀ a, ¬ holds .null a) {output : Output}
    (hends : output.EndsWell) {r : Reply α} (hr : IsReply holds output.stdout r) :
    verdict payload output = r.outcome := by
  rw [verdict_of_endsWell hends, (isReply_iff h hnull).mp hr]

theorem verdict_of_not_isReply (h : payload.Reads holds) (hnull : ∀ a, ¬ holds .null a)
    {output : Output} (hends : output.EndsWell) (hr : ¬ ∃ r, IsReply holds output.stdout r) :
    ∃ fault, verdict payload output = .error (.reply fault) := by
  rw [verdict_of_endsWell hends]
  cases hdecode : Json.decode (Reply.decoder payload) (Utf8.pieces output.stdout) with
  | error fault => exact ⟨fault, rfl⟩
  | ok r => exact absurd ⟨r, (isReply_iff h hnull).mpr hdecode⟩ hr

theorem verdict_of_interruption {output : Output} {cause : FileError}
    (h : output.interruption? = some cause) : verdict payload output = .error (.transfer cause) := by
  rw [verdict, h]

theorem verdict_of_status {output : Output} (hheard : output.interruption? = none)
    (hstatus : output.status ≠ 0) :
    verdict payload output = .error (.exit output.status (Utf8.decodeLossy output.stderr).trim) := by
  rw [verdict, hheard]
  exact if_pos hstatus

theorem Reply.outcome_error {r : Reply α} {message : Text} (h : r.error = some message) :
    r.outcome = .error (.library message) := by
  cases r
  subst h
  rfl

theorem Reply.outcome_ok {r : Reply α} (herror : r.error = none) {a : α} (hok : r.ok = some a) :
    r.outcome = .ok a := by
  cases r
  subst herror hok
  rfl

theorem Reply.outcome_empty {r : Reply α} (herror : r.error = none) (hok : r.ok = none) :
    r.outcome = .error (.library "empty reply".toList) := by
  cases r
  subst herror hok
  rfl

/-- What a reply says is never that there is none. -/
theorem Reply.outcome_ne_reply (r : Reply α) (fault : Json.Fault) :
    r.outcome ≠ .error (.reply fault) := by
  rcases r with ⟨ok, error⟩
  cases error <;> cases ok <;> exact nofun

theorem Reply.of_outcome_ok {r : Reply α} {a : α} (h : r.outcome = .ok a) :
    r.error = none ∧ r.ok = some a := by
  rcases r with ⟨ok, error⟩
  cases error with
  | some message => exact nomatch h
  | none =>
      cases ok with
      | none => exact nomatch h
      | some b => exact ⟨rfl, congrArg some (Except.ok.inj h)⟩

/-- The verdict is the answer for a process that has ended. -/
theorem verdict_judged (h : payload.Reads holds) (hnull : ∀ a, ¬ holds .null a) (output : Output) :
    Judged holds output (verdict payload output) where
  transfer := verdict_of_interruption
  exit hheard hstatus := ⟨_, trims_trim _, verdict_of_status hheard hstatus⟩
  reply hends := by
    constructor
    · rintro ⟨fault, hfault⟩ ⟨r, hr⟩
      exact r.outcome_ne_reply fault ((verdict_of_isReply h hnull hends hr).symm.trans hfault)
    · exact verdict_of_not_isReply h hnull hends
  unique hr hr' :=
    Except.ok.inj (((isReply_iff h hnull).mp hr).symm.trans ((isReply_iff h hnull).mp hr'))
  library hends _ hr _ herror :=
    (verdict_of_isReply h hnull hends hr).trans (Reply.outcome_error herror)
  ok hends _ hr herror _ hok :=
    (verdict_of_isReply h hnull hends hr).trans (Reply.outcome_ok herror hok)
  empty hends _ hr herror hok :=
    (verdict_of_isReply h hnull hends hr).trans (Reply.outcome_empty herror hok)
  accepted := by
    intro a ha
    cases hheard : output.interruption? with
    | some cause => cases (verdict_of_interruption hheard).symm.trans ha
    | none =>
        by_cases hstatus : output.status = 0
        · have hends : output.EndsWell := ⟨hheard, hstatus⟩
          by_cases hr : ∃ r, IsReply holds output.stdout r
          · rcases hr with ⟨r, hr⟩
            rw [verdict_of_isReply h hnull hends hr] at ha
            exact ⟨hends, r, hr, Reply.of_outcome_ok ha⟩
          · rcases verdict_of_not_isReply h hnull hends hr with ⟨fault, hfault⟩
            cases hfault.symm.trans ha
        · cases (verdict_of_status hheard hstatus).symm.trans ha

end Verdict

/-- Both libraries start one process for a call, and their answer is made of how it ends: of a process
    that could not be given its request the reason, of a failed one its status and its error stream, of
    another one the reply that its whole output is. -/
theorem libraries_judge {m : Type → Type} [Monad m] [LawfulMonad m]
    (spawn : Command → m (Except FileError Output)) (tree : FileTree) (program : Text) :
    (∀ package text workdir, ∃ (c : Command)
      (answer : Except FileError Output → Except AdapterError LintReport),
      (libraries spawn tree program).lintFix package text workdir = answer <$> spawn c ∧
        ∀ output, Judged LintReport.Holds output (answer (.ok output))) ∧
    ∀ text options workdir, ∃ (c : Command)
      (answer : Except FileError Output → Except AdapterError Text),
      (libraries spawn tree program).prettify text options workdir = answer <$> spawn c ∧
        ∀ output, Judged IsText output (answer (.ok output)) := by
  refine ⟨fun package text workdir => ?_, fun text options workdir => ?_⟩
  · rcases lintFix_eq spawn tree program package text workdir with ⟨c, -, -, -, heq⟩
    exact ⟨c, _, heq, verdict_judged LintReport.decoder_reads LintReport.not_holds_null⟩
  · rcases prettify_eq spawn tree program text options workdir with ⟨c, -, -, -, heq⟩
    exact ⟨c, _, heq, verdict_judged Json.text_reads nofun⟩

section Examples

/-- An object with a result and an error. -/
def twofoldReply : List UInt8 :=
  Text.toUtf8 "\x7b\"ok\":\"a\",\"error\":\"no\"\x7d\n".toList

theorem isReply_twofoldReply :
    IsReply IsText twofoldReply ⟨some "a".toList, some "no".toList⟩ :=
  (isReply_iff Json.text_reads nofun).mpr rfl

/-- A process that leaves the same behind for every request. -/
def leaves (output : Output) (_ : Command) : Id (Except FileError Output) :=
  .ok output

/-- A process that succeeds with that reply, and one that fails with it. -/
def succeeded : Output :=
  { status := 0, stdout := twofoldReply, stderr := [] }

def failed : Output :=
  { status := 3, stdout := twofoldReply, stderr := Text.toUtf8 " boom\n".toList }

theorem libraries_judge_twofoldReply :
    LawfulMonad Id ∧ IsReply IsText twofoldReply ⟨some "a".toList, some "no".toList⟩ ∧
      (libraries (leaves succeeded) .empty []).prettify [] (.ofStyle .standard) none =
        .error (.library "no".toList) ∧
      ∃ message, Trims " boom\n".toList message ∧
        (libraries (leaves failed) .empty []).prettify [] (.ofStyle .standard) none =
          .error (.exit 3 message) := by
  refine ⟨inferInstance, isReply_twofoldReply, ?_, ?_⟩
  · obtain ⟨c, answer, heq, hjudged⟩ :=
      (libraries_judge (leaves succeeded) .empty []).2 [] (.ofStyle .standard) none
    exact heq.trans ((hjudged _).library ⟨rfl, rfl⟩ isReply_twofoldReply rfl)
  · obtain ⟨c, answer, heq, hjudged⟩ :=
      (libraries_judge (leaves failed) .empty []).2 [] (.ofStyle .standard) none
    rcases (hjudged failed).exit rfl nofun with ⟨message, htrims, hanswer⟩
    exact ⟨message, htrims, heq.trans hanswer⟩

/-- An object with a result, and with a byte that is not UTF-8 where no reply is looked at. -/
def unreadByte : List UInt8 :=
  Text.toUtf8 "\x7b\"x\":\"".toList ++ 0xFF :: Text.toUtf8 "\",\"ok\":\"a\"\x7d".toList

/-- A process that succeeds with it. -/
def unreadOutput : Output :=
  { status := 0, stdout := unreadByte, stderr := [] }

/-- What is accepted need not be a text. -/
theorem verdict_unreadByte :
    (∀ t : Text, unreadByte ≠ t.toUtf8) ∧ verdict .text unreadOutput = .ok "a".toList ∧
      ¬ ((∃ fault, verdict Decoder.text unreadOutput = .error (.reply fault)) ↔
        ¬ ∃ t : Text, unreadByte = t.toUtf8 ∧ ∃ r, IsReply IsText unreadByte r) := by
  have hbytes : ∀ t : Text, unreadByte ≠ t.toUtf8 := by
    intro t ht
    have hdecode : Utf8.decode? unreadByte = none := rfl
    rw [ht, Utf8.decode?_toUtf8] at hdecode
    exact nomatch hdecode
  have hverdict : verdict .text unreadOutput = .ok "a".toList := rfl
  refine ⟨hbytes, hverdict, fun hiff => ?_⟩
  rcases hiff.mpr fun ⟨t, ht, _⟩ => hbytes t ht with ⟨fault, hfault⟩
  exact nomatch hverdict.symm.trans hfault

end Examples

end Child

end Restyle
