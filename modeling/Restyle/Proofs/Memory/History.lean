import Mathlib.Logic.Function.Basic
import Restyle.Memory.Session
import Restyle.Proofs.FileTree.Writing
import Restyle.Proofs.Memory.BeforeSave

/-!
# Histories of Buffers

What buffers and the files around them have come to after any number of steps.

Several buffers may be open on the same files, and each step is one of one of them. All that a step can
do is to make the buffer anew, to read it from its file, to write it there, to change it without touching
the text that it takes its file to hold, or to be refused, if there is a file that it cannot read or
write. `Effect` says this, and a step that formats is not told from one that is typed. So the text that a
buffer takes its file to hold is the one it had when it was last made, read or written, in a run of any
length, whatever happened to it and to the others since.

The libraries may answer what they like and act in any monad. They do not see the buffers or the files,
so what is shown holds of all the results that a run can have.

## Main definitions

* `Session.Refuses`: Why a step is refused.
* `Session.Effect`: What a step can come to.
* `Desk`: Buffers and the files around them.
* `Desk.run`: A list of steps, each of one of the buffers.
* `Desk.Event.Lawful`: What one step leaves as it was.
* `Desk.lastKept`: The text of a buffer when it was last made, read or written.

## Theorems

* `Session.always_perform`: A step has one of the five effects.
* `Desk.lawful_event`: Whichever it has, it changes no more than it may.
* `Desk.run_lawful`: Over a whole run a buffer is modified if its text is not the one last kept.
-/

namespace Restyle

variable {m : Type → Type} [Monad m]

/-! ### Between a buffer and its file -/

namespace Buffer

/-- The buffer of a file holds what can be read of it. -/
theorem load_eq_ok_iff {tree : FileTree} {p : Path} {b : Buffer} :
    load tree p = .ok b ↔
      ∃ t, tree.readText p = .ok t ∧ b = { ofText t with path := some p, scope := scopeOf p } := by
  rw [load]
  cases tree.readText p with
  | ok t => simp [eq_comm]
  | error cause => simp

/-- A buffer is saved to the path it has, and only remembers that it was. -/
theorem save_eq_ok {tree after : FileTree} {b b' : Buffer} (h : b.save tree = .ok (b', after)) :
    b' = { b with saved := b.text } ∧ ∃ p, b.path = some p ∧ tree.Wrote after p b.text := by
  rw [save] at h
  cases hpath : b.path with
  | none => rw [hpath] at h; exact nomatch h
  | some p =>
      simp only [hpath] at h
      cases hwrite : tree.write p b.text.toUtf8 with
      | error cause => rw [hwrite] at h; exact nomatch h
      | ok written =>
          rw [hwrite] at h
          obtain ⟨rfl, rfl⟩ := Prod.mk.inj (Except.ok.inj h)
          exact ⟨rfl, p, rfl, FileTree.wrote_of_write hwrite⟩

end Buffer

/-! ### Steps of one buffer -/

namespace Session

/-- The steps after which the text of a buffer is the one that its file is taken to hold. -/
def Step.keeps : Step → Bool
  | .new _ | .load _ | .save => true
  | _ => false

/-- A step is refused because of what it finds. Only reading a file and writing one can be. -/
inductive Refuses (s : Session) : Step → Failure → Prop where
  | unread {p : Path} {cause : FileError} (read : s.tree.readText p = .error cause) :
      Refuses s (.load p) (.read p cause)
  | unnamed (path : s.buffer.path = none) : Refuses s .save .noBackingFile
  | unwritten {p : Path} {cause : FileError} (path : s.buffer.path = some p)
      (write : s.tree.write p s.buffer.text.toUtf8 = .error cause) :
      Refuses s .save (.write p cause)

/-- What a step can come to. -/
inductive Effect (s : Session) :
    Step → Except Failure (Option SaveOutcome) × Session → Prop where
  | made (t : Text) : Effect s (.new t) (.ok none, { s with buffer := .ofText t })
  | opened {p : Path} {b : Buffer} (load : Buffer.load s.tree p = .ok b) :
      Effect s (.load p) (.ok none, { s with buffer := b })
  | written {b : Buffer} {tree : FileTree} (save : s.buffer.save s.tree = .ok (b, tree)) :
      Effect s .save (.ok none, { tree, buffer := b })
  | refused {step : Step} {failure : Failure} (refuses : Refuses s step failure) :
      Effect s step (.error failure, s)
  | changed {step : Step} (keeps : step.keeps = false) (told : Option SaveOutcome) {b : Buffer}
      (saved : b.saved = s.buffer.saved) : Effect s step (.ok told, { s with buffer := b })

theorem refuses_load (s : Session) {p : Path} {failure : Failure}
    (h : Buffer.load s.tree p = .error failure) : s.Refuses (.load p) failure := by
  rw [Buffer.load] at h
  cases hread : s.tree.readText p with
  | ok t => rw [hread] at h; exact nomatch h
  | error cause =>
      rw [hread] at h
      obtain rfl := Except.error.inj h
      exact .unread hread

theorem refuses_save (s : Session) {failure : Failure}
    (h : s.buffer.save s.tree = .error failure) : s.Refuses .save failure := by
  rw [Buffer.save] at h
  cases hpath : s.buffer.path with
  | none =>
      rw [hpath] at h
      obtain rfl := Except.error.inj h
      exact .unnamed hpath
  | some p =>
      simp only [hpath] at h
      cases hwrite : s.tree.write p s.buffer.text.toUtf8 with
      | ok written => rw [hwrite] at h; exact nomatch h
      | error cause =>
          rw [hwrite] at h
          obtain rfl := Except.error.inj h
          exact .unwritten hpath hwrite

/-- An operation is not refused, and the text that the file is taken to hold is the same after it. -/
def Undisturbed {α : Type} (b : Buffer) (out : Except Failure α × Buffer) : Prop :=
  ∃ a b', out = (.ok a, b') ∧ b'.saved = b.saved

section Step

variable [LawfulMonad m]

/-- What is told after an operation disturbs nothing. -/
theorem Undisturbed.map {α β : Type} {operation : ExceptT Failure (StateT Buffer m) α} {b : Buffer}
    (h : Always (operation.run.run b) (Undisturbed b)) (told : α → β) :
    Always ((told <$> operation).run.run b) (Undisturbed b) := by
  rw [ExceptT.run_map, StateT.run_map]
  refine h.map fun out hout => ?_
  obtain ⟨a, b', rfl, hsaved⟩ := hout
  exact ⟨told a, b', rfl, hsaved⟩

theorem undisturbed_modify {g : Buffer → Buffer} {b : Buffer} (h : (g b).saved = b.saved) :
    Always ((modify g : ExceptT Failure (StateT Buffer m) PUnit).run.run b) (Undisturbed b) := by
  rw [run_modify]
  exact always_pure ⟨(), g b, rfl, h⟩

theorem undisturbed_run (tree : FileTree) (source : Settings.Source) (l : Libraries m)
    (settings : Settings) (style : Style) (selectionOnly : Bool) (b : Buffer) :
    Always (((Formatter.onBuffer tree source l).run Buffer.editor settings style
      selectionOnly).run.run b) (Undisturbed b) := by
  rw [Buffer.run_run]
  exact always_map (fun outcome => ⟨(), _, rfl, (b.file_settle _ outcome.toOption).2.2⟩) _

/-- The moment before a save is that of a run, or nothing happens. -/
theorem undisturbed_beforeSave (tree : FileTree) (source : Settings.Source) (l : Libraries m)
    (b : Buffer) :
    Always (((Formatter.onBuffer tree source l).beforeSave Buffer.editor).run.run b)
      (Undisturbed b) := by
  have hleave : ∀ reason, Always (b.leave reason : m _) (Undisturbed b) :=
    fun reason => always_pure ⟨.skipped reason, b, rfl, rfl⟩
  have hformat : ∀ style, Always
      ((fun out => (.ok SaveOutcome.formatted, out.2)) <$>
        ((Formatter.onBuffer tree source l).format style false (some Buffer.editor)).run.run b)
      (Undisturbed b) := by
    intro style
    refine (undisturbed_run tree source l _ style false b).map fun out hout => ?_
    obtain ⟨a, b', rfl, hsaved⟩ := hout
    exact ⟨.formatted, b', rfl, hsaved⟩
  rw [Buffer.run_beforeSave]
  split
  · exact hleave _
  · split_ifs
    · exact hleave _
    · exact hleave _
    · exact hleave _
    · exact hformat _

/-- The command is a run in the style of the document. -/
theorem undisturbed_command (tree : FileTree) (source : Settings.Source) (l : Libraries m)
    (b : Buffer) :
    Always (((Formatter.onBuffer tree source l).command (some Buffer.editor)).run.run b)
      (Undisturbed b) := by
  unfold Formatter.command
  rw [run_bind_ok (Buffer.run_liftPath (m := m) b)]
  exact undisturbed_run tree source l _ _ true b

variable (source : Settings.Source) (libraries : FileTree → Libraries m) (s : Session)

/-- An operation that disturbs nothing changes the buffer at most. -/
theorem always_edit {operation : ExceptT Failure (StateT Buffer m) (Option SaveOutcome)}
    (h : Always (operation.run.run s.buffer) (Undisturbed s.buffer)) {step : Step}
    (hstep : step.keeps = false) : Always (s.edit operation) (Effect s step) := by
  refine h.bind fun out hout => ?_
  obtain ⟨told, b, rfl, hsaved⟩ := hout
  exact always_pure (.changed hstep told hsaved)

/-- The same of an operation that has nothing to tell. -/
theorem always_edit_silent {operation : ExceptT Failure (StateT Buffer m) PUnit}
    (h : Always (operation.run.run s.buffer) (Undisturbed s.buffer)) {step : Step}
    (hstep : step.keeps = false) :
    Always (s.edit (do operation; pure none)) (Effect s step) := by
  rw [bind_pure_comp]
  exact s.always_edit (Undisturbed.map h fun _ => none) hstep

/-- A step has one of the five effects. -/
theorem always_perform (step : Step) :
    Always (s.perform source libraries step) (Effect s step) := by
  cases step with
  | new t => exact always_pure (.made t)
  | load p =>
      cases hload : Buffer.load s.tree p with
      | ok b =>
          simp only [perform, hload]
          exact always_pure (.opened hload)
      | error failure =>
          simp only [perform, hload]
          exact always_pure (.refused (s.refuses_load hload))
  | save =>
      cases hsave : s.buffer.save s.tree with
      | ok out =>
          simp only [perform, hsave]
          exact always_pure (.written hsave)
      | error failure =>
          simp only [perform, hsave]
          exact always_pure (.refused (s.refuses_save hsave))
  | setPath p => exact always_pure (.changed rfl none rfl)
  | setScope scope => exact always_pure (.changed rfl none rfl)
  | placeCursor p => exact always_pure (.changed rfl none rfl)
  | select r => exact always_pure (.changed rfl none rfl)
  | edit t => exact always_pure (.changed rfl none rfl)
  | setText t => exact s.always_edit_silent (undisturbed_modify rfl) rfl
  | setTextInRange r t => exact s.always_edit_silent (undisturbed_modify rfl) rfl
  | setCursor p => exact s.always_edit_silent (undisturbed_modify rfl) rfl
  | command =>
      exact s.always_edit_silent (undisturbed_command s.tree source (libraries s.tree) s.buffer) rfl
  | format style selectionOnly =>
      exact s.always_edit_silent
        (undisturbed_run s.tree source (libraries s.tree) _ style selectionOnly _) rfl
  | beforeSave =>
      exact s.always_edit
        (Undisturbed.map (undisturbed_beforeSave s.tree source (libraries s.tree) s.buffer) some) rfl

end Step

/-- The text that a file is taken to hold is that of the buffer after the steps that keep it, and the
    same as before after the others and after those that are refused. -/
theorem Effect.saved_eq {s : Session} {step : Step}
    {out : Except Failure (Option SaveOutcome) × Session} (h : Effect s step out) :
    out.2.buffer.saved =
      if step.keeps ∧ out.1.toBool then out.2.buffer.text else s.buffer.saved := by
  cases h with
  | made t => rfl
  | opened hload =>
      obtain ⟨t, -, rfl⟩ := Buffer.load_eq_ok_iff.mp hload
      rfl
  | written hsave =>
      obtain ⟨rfl, -⟩ := Buffer.save_eq_ok hsave
      rfl
  | refused => exact (if_neg fun h => nomatch h.2).symm
  | changed hkeeps told hsaved => exact hsaved.trans (if_neg (by simp [hkeeps])).symm

end Session

/-! ### Several buffers -/

/-- The buffers that are open, by number, and the files around them. -/
structure Desk where
  tree : FileTree
  buffers : Nat → Buffer

namespace Desk

/-- One of the buffers, and the files. -/
def session (d : Desk) (n : Nat) : Session :=
  ⟨d.tree, d.buffers n⟩

/-- The desk after one of the buffers, and the files, have become others. -/
def put (d : Desk) (n : Nat) (s : Session) : Desk :=
  ⟨s.tree, Function.update d.buffers n s.buffer⟩

@[simp] theorem buffers_put_self (d : Desk) (n : Nat) (s : Session) :
    (d.put n s).buffers n = s.buffer :=
  Function.update_self _ _ _

theorem buffers_put_of_ne (d : Desk) {n k : Nat} (h : k ≠ n) (s : Session) :
    (d.put n s).buffers k = d.buffers k :=
  Function.update_of_ne h _ _

@[simp] theorem put_session (d : Desk) (n : Nat) : d.put n (d.session n) = d := by
  rw [put, session, Function.update_eq_self]

/-- A step that one of the buffers took, what came of it, and how things stood then. -/
structure Event where
  number : Nat
  step : Session.Step
  outcome : Except Failure (Option SaveOutcome)
  after : Desk

/-- What came of a step of one of the buffers. -/
def event (d : Desk) (n : Nat) (step : Session.Step)
    (out : Except Failure (Option SaveOutcome) × Session) : Event :=
  ⟨n, step, out.1, d.put n out.2⟩

/-- A list of steps, each of one of the buffers. -/
def run (source : Settings.Source) (libraries : FileTree → Libraries m) :
    Desk → List (Nat × Session.Step) → m (List Event)
  | _, [] => pure []
  | d, (n, step) :: steps => do
    let out ← (d.session n).perform source libraries step
    let events ← run source libraries (d.event n step out).after steps
    pure (d.event n step out :: events)

namespace Event

/-- The text of a buffer, if a step has just made, read or written it. -/
def kept? (e : Event) (n : Nat) : Option Text :=
  if n = e.number ∧ e.step.keeps ∧ e.outcome.toBool then some (e.after.buffers n).text else none

/-- What a step of one of the buffers changes, and what it leaves as it was. -/
structure Lawful (before : Desk) (e : Event) : Prop where
  others : ∀ n, n ≠ e.number → e.after.buffers n = before.buffers n
  saved : ∀ n, (e.after.buffers n).saved = (e.kept? n).getD (before.buffers n).saved
  files : e.step ≠ .save → e.after.tree = before.tree
  refused : ∀ failure, e.outcome = .error failure →
    e.after = before ∧ (before.session e.number).Refuses e.step failure
  made : ∀ t, e.step = .new t → e.after.buffers e.number = .ofText t
  opened : ∀ p told, e.step = .load p → e.outcome = .ok told →
    before.tree.readText p = .ok (e.after.buffers e.number).text
  /-- The file is all that differs, and who opens it finds the text of the buffer. -/
  written : ∀ told, e.step = .save → e.outcome = .ok told →
    e.after.buffers e.number =
      { before.buffers e.number with saved := (before.buffers e.number).text } ∧
    ∃ p, (before.buffers e.number).path = some p ∧
      before.tree.Wrote e.after.tree p (before.buffers e.number).text ∧
      ∃ b, Buffer.load e.after.tree p = .ok b ∧ b.text = (before.buffers e.number).text ∧
        b.isModified = false

end Event

/-- Whichever of the effects a step has, it changes no more than it may. -/
theorem lawful_event {d : Desk} {n : Nat} {step : Session.Step}
    {out : Except Failure (Option SaveOutcome) × Session}
    (h : Session.Effect (d.session n) step out) : (d.event n step out).Lawful d where
  others k hk := d.buffers_put_of_ne hk _
  saved k := by
    by_cases hk : k = n
    · subst hk
      have hsaved := h.saved_eq
      simp only [event, Event.kept?, buffers_put_self, true_and, hsaved]
      split_ifs <;> rfl
    · simp only [event, Event.kept?, hk, false_and, if_false, d.buffers_put_of_ne hk _,
        Option.getD_none]
  files hstep := by
    cases h with
    | written => exact absurd rfl hstep
    | made | opened | refused | changed => rfl
  refused failure hout := by
    cases h with
    | refused hrefuses =>
        obtain rfl := Except.error.inj hout
        exact ⟨d.put_session n, hrefuses⟩
    | made | opened | written | changed => exact nomatch hout
  made t hstep := by
    cases h with
    | made =>
        obtain rfl := Session.Step.new.inj hstep
        exact d.buffers_put_self n _
    | opened | written => exact nomatch hstep
    | refused hrefuses =>
        cases hstep
        exact nomatch hrefuses
    | changed hkeeps =>
        cases hstep
        exact nomatch hkeeps
  opened p told hstep hout := by
    cases h with
    | opened hload =>
        obtain ⟨t, hread, rfl⟩ := Buffer.load_eq_ok_iff.mp hload
        obtain rfl := Session.Step.load.inj hstep
        change d.tree.readText _ = .ok ((d.put n _).buffers n).text
        rw [buffers_put_self]
        exact hread
    | made | written => exact nomatch hstep
    | refused => exact nomatch hout
    | changed hkeeps =>
        cases hstep
        exact nomatch hkeeps
  written told hstep hout := by
    cases h with
    | written hsave =>
        obtain ⟨rfl, p, hpath, hwrote⟩ := Buffer.save_eq_ok hsave
        refine ⟨d.buffers_put_self n _, p, hpath, hwrote, _,
          Buffer.load_eq_ok_iff.mpr ⟨_, hwrote.read, rfl⟩, rfl, ?_⟩
        exact bne_eq_false_iff_eq.mpr rfl
    | made | opened => exact nomatch hstep
    | refused => exact nomatch hout
    | changed hkeeps =>
        cases hstep
        exact nomatch hkeeps

/-- How things stand after some of the events. -/
def afterwards (d : Desk) (past : List Event) : Desk :=
  (past.getLast?.map Event.after).getD d

/-- The text of a buffer when it was last made, read or written. Before that it is what its file was
    taken to hold when the events began. -/
def lastKept (d : Desk) (past : List Event) (n : Nat) : Text :=
  (past.filterMap fun e => e.kept? n).getLast?.getD (d.buffers n).saved

theorem afterwards_cons (d : Desk) (e : Event) (past : List Event) :
    d.afterwards (e :: past) = e.after.afterwards past := by
  rw [afterwards, afterwards, List.getLast?_cons]
  cases past.getLast? with
  | none => rfl
  | some last => rfl

/-- The events after the first begin with what that has left. -/
theorem lastKept_cons {d : Desk} {e : Event} (h : e.Lawful d) (past : List Event) (n : Nat) :
    d.lastKept (e :: past) n = e.after.lastKept past n := by
  rw [lastKept, lastKept, h.saved n, List.filterMap_cons]
  cases e.kept? n with
  | none => rfl
  | some t => simp only [List.getLast?_cons, Option.getD_some]

/-- After every step of a run a buffer is modified exactly if its text is not the one that it had when it
    was last made, read or written. Only a save changes the files, and a save that succeeds changes no
    more than the file behind the buffer, which holds the text then, so that who opens it finds this text
    in a buffer that is not modified. A step that fails could not read a file or not write one, and leaves
    everything as it was. A step of one buffer leaves the others alone. -/
theorem run_lawful [LawfulMonad m] (source : Settings.Source) (libraries : FileTree → Libraries m)
    (d : Desk) (steps : List (Nat × Session.Step)) :
    Always (d.run source libraries steps) fun events =>
      (events.map fun e => (e.number, e.step)) = steps ∧
      ∀ past e rest, events = past ++ e :: rest →
        e.Lawful (d.afterwards past) ∧
        ∀ n, (e.after.buffers n).isModified = true ↔
          (e.after.buffers n).text ≠ d.lastKept (past ++ [e]) n := by
  induction steps generalizing d with
  | nil => exact always_pure ⟨rfl, fun past e rest h => by simp at h⟩
  | cons first steps ih =>
      obtain ⟨n, step⟩ := first
      refine ((d.session n).always_perform source libraries step).bind fun out hout => ?_
      refine (ih (d.event n step out).after).bind fun events hevents => always_pure ?_
      refine ⟨by rw [List.map_cons, hevents.1]; rfl, fun past e rest h => ?_⟩
      have hfirst := lawful_event hout
      cases past with
      | nil =>
          obtain ⟨rfl, -⟩ := List.cons.inj h
          refine ⟨hfirst, fun k => ?_⟩
          rw [List.nil_append, lastKept_cons hfirst]
          exact bne_iff_ne
      | cons e₀ past =>
          -- What came before counts only by what the first step has left.
          obtain ⟨rfl, hrest⟩ := List.cons.inj h
          rw [afterwards_cons, List.cons_append]
          simp only [lastKept_cons hfirst]
          exact hevents.2 past e rest hrest

/-- A desk with one file. -/
def oneFile : Desk where
  tree := FileTree.put { FileTree.empty with node? := fun l => if l = [] then some .directory else none }
    ["a.js".toList] (Text.toUtf8 "é;;".toList)
  buffers _ := {}

/-- Two buffers open the file. One is formatted and saved, of which the other is not told, and then has
    the text again that it was opened with. The other fails to open a file that is not there. -/
def twoViews : List (Nat × Session.Step) :=
  [(0, .load ⟨"a.js".toList⟩), (1, .load ⟨"a.js".toList⟩), (0, .command), (0, .save),
    (1, .load ⟨"b.js".toList⟩), (0, .edit "é;;".toList)]

/-- What comes of the steps, with libraries that make a text shorter. -/
def twoViewsEvents : List Event :=
  oneFile.run (m := Id) (.fixed {}) (fun _ => Buffer.fixedAnswer "é".toList) twoViews

theorem run_lawful_twoViews :
    LawfulMonad Id ∧
      (twoViewsEvents.map fun e => (e.number, e.step)) = twoViews ∧
      (twoViewsEvents.map fun e => ((e.after.buffers 0).isModified, (e.after.buffers 1).isModified)) =
        [(false, false), (false, false), (true, false), (false, false), (false, false),
          (true, false)] ∧
      (∃ past e rest, twoViewsEvents = past ++ e :: rest ∧ e.step = .save ∧ e.outcome = .ok none ∧
        (oneFile.afterwards past).tree.Wrote e.after.tree ⟨"a.js".toList⟩ "é".toList ∧
        e.after.buffers 1 = (oneFile.afterwards past).buffers 1) ∧
      ∃ past e rest failure, twoViewsEvents = past ++ e :: rest ∧ e.outcome = .error failure ∧
        e.after = oneFile.afterwards past := by
  rcases run_lawful (m := Id) (.fixed {}) (fun _ => Buffer.fixedAnswer "é".toList) oneFile twoViews
    with ⟨events, hevents⟩
  -- Here a computation is its only result.
  have hrun : twoViewsEvents = events.1 := hevents.symm
  obtain ⟨hsteps, hlawful⟩ := events.2
  rw [← hrun] at hsteps hlawful
  have hlength : twoViewsEvents.length = 6 := by
    rw [← List.length_map, hsteps]
    rfl
  have hsplit : ∀ n (h : n < twoViewsEvents.length), twoViewsEvents =
      twoViewsEvents.take n ++ twoViewsEvents[n] :: twoViewsEvents.drop (n + 1) := by
    intro n h
    rw [List.getElem_cons_drop, List.take_append_drop]
  have hsave : 3 < twoViewsEvents.length := by rw [hlength]; decide
  have hfail : 4 < twoViewsEvents.length := by rw [hlength]; decide
  refine ⟨inferInstance, hsteps, by decide +kernel, ?_, ?_⟩
  · have hlaw := (hlawful _ _ _ (hsplit 3 hsave)).1
    obtain ⟨-, p, hpath, hwrote, -⟩ := hlaw.written none rfl rfl
    obtain rfl : ⟨"a.js".toList⟩ = p := Option.some.inj hpath
    exact ⟨_, _, _, hsplit 3 hsave, rfl, rfl, hwrote, hlaw.others 1 (show 1 ≠ 0 by decide)⟩
  · have hlaw := (hlawful _ _ _ (hsplit 4 hfail)).1
    exact ⟨_, _, _, _, hsplit 4 hfail, rfl, (hlaw.refused (.read ⟨"b.js".toList⟩ .notFound) rfl).1⟩

end Desk

end Restyle
