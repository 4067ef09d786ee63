import Restyle.Proofs.Neovim.Windows

/-!
# The Cursor of a Document

How a run of the formatter treats the cursor.

A document is opened in one window, or in none. A run reads the cursor of that window before anything
else, and puts it back after everything else, so its exchanges are quiet in between. By then the text may
have lost lines. The number of lines is therefore read again, as the last thing before the cursor is
moved, and the row is the one that was read as far as there still is such a row. Where any request fails
the rest may be left out, but no other window is ever touched.

## Main definitions

* `Restores`: What a cursor is moved to, given where it was and how many lines there are.
* `CursorLog`: The exchanges of a run.
* `OccasionLog`: The exchanges on an occasion to format, with a run or without.
* `Visit`, `CurrentVisit`: The exchanges of opening a buffer and of an occasion to format it.

## Theorems

* `restores_cursorRow`: The row and the column are those that were read, where these exist.
* `recorded_run`: A run reads the cursor first and puts it back last.
* `recorded_command`, `recorded_beforeSave`: So it does on both of its occasions.
-/

namespace Restyle.Neovim

/-- The row and the column that a cursor is moved to, given those that were read and the number of
    lines. Rows are counted from one. -/
structure Restores (captured : Int × Int) (count row column : Int) : Prop where
  first : 1 ≤ row
  last : row ≤ max 1 count
  row_eq : 1 ≤ captured.1 → captured.1 ≤ max 1 count → row = captured.1
  column_eq : 0 ≤ captured.2 → column = captured.2

theorem restores_cursorRow (captured : Int × Int) (count : Int) :
    Restores captured count (Document.cursorRow (captured.1 - 1).toNat count)
      captured.2.toNat := by
  unfold Document.cursorRow
  constructor <;> omega

/-- The exchanges of a run for a buffer that is shown in a certain window, or in none. -/
inductive CursorLog (b : BufferHandle) : Option WindowHandle → List Exchange → Prop where
  /-- Without a window there is no cursor. -/
  | nowhere {log : List Exchange} (h : Quiet log) : CursorLog b none log
  /-- The cursor was asked for, and the run did not come as far as to move it. -/
  | left (w : WindowHandle) (answer : Except RpcError Value) {log : List Exchange} (h : Quiet log) :
      CursorLog b (some w) (⟨.cursor w, answer⟩ :: log)
  /-- The cursor was moved, at the end and right after the lines were counted. -/
  | moved (w : WindowHandle) {position lines : Value} {captured : Int × Int}
      {count row column : Int} (answer : Except RpcError Value) {log : List Exchange}
      (hposition : position.pair? = some captured) (h : Quiet log) (hlines : lines.int? = some count)
      (hrestores : Restores captured count row column) :
      CursorLog b (some w) (⟨.cursor w, .ok position⟩ :: log ++
        [⟨.lineCount b, .ok lines⟩, ⟨.setCursor w row column, answer⟩])

/-- The exchanges by which a cursor is read, and the point that stands for it. -/
inductive CursorRead : Option WindowHandle → Point → List Exchange → Prop where
  | nowhere (p : Point) : CursorRead none p []
  | told (w : WindowHandle) {position : Value} {captured : Int × Int}
      (h : position.pair? = some captured) :
      CursorRead (some w) ⟨(captured.1 - 1).toNat, captured.2.toNat⟩ [⟨.cursor w, .ok position⟩]

/-- What is read before anything is changed, with the exchanges that it takes. -/
inductive CaptureLog (b : BufferHandle) (window : Option WindowHandle) :
    Except Failure FormatRequest → List Exchange → Prop where
  | failed {failure : Failure} {log : List Exchange} (h : CursorLog b window log) :
      CaptureLog b window (.error failure) log
  | read {request : FormatRequest} {first log : List Exchange}
      (hfirst : CursorRead window request.cursor first) (h : Quiet log) :
      CaptureLog b window (.ok request) (first ++ log)

/-- The exchanges on an occasion to format. Any questions come first, and then a run if none of the
    answers speaks against it. -/
inductive OccasionLog (b : BufferHandle) (window : Option WindowHandle) : List Exchange → Prop where
  | skipped {log : List Exchange} (h : Quiet log) : OccasionLog b window log
  | ran {asked run : List Exchange} (hasked : Quiet asked) (hrun : CursorLog b window run) :
      OccasionLog b window (asked ++ run)

theorem CursorLog.routine {b : BufferHandle} {window : Option WindowHandle} {log : List Exchange}
    (h : CursorLog b window log) : Routine log := by
  have hcursor : ∀ {w answer} {log : List Exchange}, Quiet log →
      Routine (⟨.cursor w, answer⟩ :: log) := fun h => List.forall_mem_cons.mpr ⟨rfl, h.routine⟩
  cases h with
  | nowhere h => exact h.routine
  | left w answer h => exact hcursor h
  | moved w answer hposition h hlines hrestores =>
      refine Routine.append (hcursor h) ?_
      exact List.forall_mem_cons.mpr ⟨rfl, List.forall_mem_singleton.mpr rfl⟩

/-- The exchanges of opening a buffer and of an occasion to format it. -/
inductive Visit (b : BufferHandle) (number : Int) : List Exchange → Prop where
  | unopened {log : List Exchange} (h : Quiet log) : Visit b number log
  | opened {window : Option WindowHandle} {before found log : List Exchange} (hbefore : Quiet before)
      (hfound : FindsWindow number window found) (h : OccasionLog b window log) :
      Visit b number (before ++ found ++ log)

/-- The exchanges of a visit to the current buffer, of which the number has to be asked for. -/
inductive CurrentVisit : List Exchange → Prop where
  | untold (answer : Except RpcError Value) {log : List Exchange} (h : Quiet log) :
      CurrentVisit (⟨.currentBuffer, answer⟩ :: log)
  | told (b : Value) {v : Value} {number : Int} {log : List Exchange} (hv : v.int? = some number)
      (h : Visit ⟨b⟩ number log) :
      CurrentVisit (⟨.currentBuffer, .ok b⟩ :: ⟨.number ⟨b⟩, .ok v⟩ :: log)

theorem OccasionLog.routine {b : BufferHandle} {window : Option WindowHandle}
    {log : List Exchange} (h : OccasionLog b window log) : Routine log := by
  cases h with
  | skipped h => exact h.routine
  | ran hasked hrun => exact hasked.routine.append hrun.routine

theorem OccasionLog.prepend {b : BufferHandle} {window : Option WindowHandle}
    {first log : List Exchange} (hfirst : Quiet first) (h : OccasionLog b window log) :
    OccasionLog b window (first ++ log) := by
  cases h with
  | skipped h => exact .skipped (hfirst.append h)
  | ran hasked hrun =>
      rw [← List.append_assoc]
      exact .ran (hfirst.append hasked) hrun

theorem Visit.routine {b : BufferHandle} {number : Int} {log : List Exchange}
    (h : Visit b number log) : Routine log := by
  cases h with
  | unopened h => exact h.routine
  | opened hbefore hfound h => exact (hbefore.append hfound.quiet).routine.append h.routine

/-- What follows an opening makes a visit of it, if it formats the document that was opened. -/
theorem Opening.visit {b : BufferHandle} {number : Int} {d : Document} {log rest : List Exchange}
    (h : Opening b number (.ok (some d)) log) (hrest : OccasionLog d.buffer d.window rest) :
    Visit b number (log ++ rest) := by
  cases h with
  | unopened hresult h => exact absurd rfl (hresult d)
  | opened hbuffer hnumber hbefore hfound =>
      rw [hbuffer] at hrest
      exact .opened hbefore hfound hrest

/-- A run may end at any time after the cursor was read. -/
theorem CursorRead.cursorLog {b : BufferHandle} {window : Option WindowHandle} {p : Point}
    {first log : List Exchange} (hfirst : CursorRead window p first) (h : Quiet log) :
    CursorLog b window (first ++ log) := by
  cases hfirst with
  | nowhere p => exact .nowhere h
  | told w hposition => exact .left w _ h

section Runs

open Formatter

variable {m : Type → Type} [Monad m] [LawfulMonad m] (rpc : Rpc m) (f : Formatter m) (d : Document)

theorem recorded_captureAll {first : List Exchange} {cursor : Point}
    (hfirst : CursorRead d.window cursor first) {reads : List Exchange} (hreads : Quiet reads) :
    Recorded (captureAll (d.editor rpc.traced) cursor).run (captureAll (d.editor rpc) cursor).run
      fun result log => CaptureLog d.buffer d.window result (first ++ (reads ++ log)) := by
  unfold captureAll
  refine Recorded.bindExcept (d.asksQuietly_text rpc) ?_ fun source log h => ?_
  · exact fun failure log h => .failed (hfirst.cursorLog (hreads.append h))
  · refine recorded_pure ?_
    rw [List.append_nil]
    exact .read hfirst (hreads.append h)

/-- Whatever is selected, the point that was read goes with it. -/
theorem recorded_captureSelected {first : List Exchange} {cursor : Point}
    (hfirst : CursorRead d.window cursor first) {reads : List Exchange} (hreads : Quiet reads)
    (selection : Option Range) :
    Recorded (captureSelected (d.editor rpc.traced) cursor selection).run
      (captureSelected (d.editor rpc) cursor selection).run
      fun result log => CaptureLog d.buffer d.window result (first ++ (reads ++ log)) := by
  unfold captureSelected
  cases selection.filter (!·.isEmpty) with
  | none => exact recorded_captureAll rpc d hfirst hreads
  | some range =>
      refine Recorded.bindExcept (d.asksQuietly_textInRange rpc range) ?_ fun source log h => ?_
      · exact fun failure log h => .failed (hfirst.cursorLog (hreads.append h))
      · by_cases hsource : source = []
        · rw [if_pos hsource, if_pos hsource]
          simpa only [List.append_assoc] using
            recorded_captureAll rpc d hfirst (hreads.append h)
        · rw [if_neg hsource, if_neg hsource]
          refine recorded_pure ?_
          rw [List.append_nil]
          exact .read hfirst (hreads.append h)

/-- Reading begins with the cursor. -/
theorem recorded_capture (selectionOnly : Bool) :
    Recorded (capture (d.editor rpc.traced) selectionOnly).run
      (capture (d.editor rpc) selectionOnly).run (CaptureLog d.buffer d.window) := by
  -- What comes behind the cursor is the same with a window and without.
  have hrest : ∀ {cursor first}, CursorRead d.window cursor first →
      Recorded (do
          let selection ← selected (d.editor rpc.traced) selectionOnly
          captureSelected (d.editor rpc.traced) cursor selection).run
        (do
          let selection ← selected (d.editor rpc) selectionOnly
          captureSelected (d.editor rpc) cursor selection).run
        fun result log => CaptureLog d.buffer d.window result (first ++ log) := by
    intro cursor first hfirst
    refine Recorded.bindExcept (asksQuietly_selected rpc d selectionOnly) ?_ fun selection log h => ?_
    · exact fun failure log h => .failed (hfirst.cursorLog h)
    · exact recorded_captureSelected rpc d hfirst h selection
  have hcursor : (d.editor rpc).cursor = d.cursor rpc := rfl
  have htraced : (d.editor rpc.traced).cursor = d.cursor rpc.traced := rfl
  unfold capture
  rw [hcursor, htraced]
  unfold Document.cursor
  cases hwindow : d.window with
  | none =>
      rw [hwindow] at hrest
      simp only [pure_bind]
      exact hrest (.nowhere _)
  | some w =>
      rw [hwindow] at hrest
      simp only [bind_assoc]
      refine (recorded_ask rpc _ _ _).bindExcept ?_ ?_
      · rintro failure _ ⟨answer, -, rfl⟩
        exact .failed (.left w answer .nil)
      · rintro position _ ⟨answer, hanswer, rfl⟩
        obtain ⟨value, rfl, hvalue⟩ := content_of_heard hanswer.symm
        simp only [pure_bind]
        exact hrest (.told w hvalue)

/-- The cursor is put back behind anything quiet. -/
theorem recorded_setCursor {first : List Exchange} {cursor : Point}
    (hfirst : CursorRead d.window cursor first) {log : List Exchange} (h : Quiet log) :
    Recorded (d.setCursor rpc.traced cursor).run (d.setCursor rpc cursor).run
      fun _ moves => CursorLog d.buffer d.window (first ++ log ++ moves) := by
  unfold Document.setCursor
  cases hwindow : d.window with
  | none =>
      rw [hwindow] at hfirst
      refine recorded_pure ?_
      rw [List.append_nil]
      exact hfirst.cursorLog h
  | some w =>
      rw [hwindow] at hfirst
      refine (recorded_ask rpc _ _ _).bindExcept ?_ ?_
      · rintro failure _ ⟨answer, -, rfl⟩
        rw [List.append_assoc]
        exact hfirst.cursorLog (h.append (.cons rfl .nil))
      · rintro count _ ⟨answer, hanswer, rfl⟩
        obtain ⟨lines, rfl, hlines⟩ := content_of_heard hanswer.symm
        -- Nothing is asked between the count and the move, so the row is one of that count.
        refine (recorded_ask rpc _ _ _).mono ?_
        rintro result _ ⟨answer, -, rfl⟩
        cases hfirst with
        | told w hposition =>
            exact .moved w answer hposition h hlines (restores_cursorRow _ count)

/-- A run reads the cursor first and puts it back last, also where the formatting or the writing
    failed. -/
theorem recorded_run (settings : Settings) (style : Style) (selectionOnly : Bool) :
    Recorded (f.lift.run (d.editor rpc.traced) settings style selectionOnly).run
      (f.run (d.editor rpc) settings style selectionOnly).run
      fun _ log => CursorLog d.buffer d.window log := by
  unfold Formatter.run
  rw [ExceptT.run_mk, ExceptT.run_mk]
  refine Recorded.bind (recorded_capture rpc d selectionOnly) ?_
  intro result log hcapture
  cases hcapture with
  | failed h =>
      refine recorded_pure ?_
      rwa [List.append_nil]
  | @read request first reads hfirst hreads =>
      -- Neither the path nor the pipeline takes a request.
      have hpath : Recorded (d.editor rpc.traced).path (d.editor rpc).path fun _ log => log = [] :=
        recorded_pure rfl
      refine hpath.bind ?_
      rintro path _ rfl
      refine (recorded_transform_lift f.libraries _ _ _ _).bind ?_
      rintro outcome _ rfl
      -- The cursor is put back also after a failure, so nothing is left out here.
      refine Recorded.bind (asksQuietly_apply rpc d request _) ?_
      intro applied writes hwrites
      refine Recorded.bind (recorded_setCursor rpc d hfirst (hreads.append hwrites)) ?_
      intro moved moves hmoves
      refine recorded_pure ?_
      simpa only [List.append_nil, List.nil_append, List.append_assoc] using hmoves

theorem recorded_path {α : Type} {g : Option Path → ExceptT Failure (StateT (List Exchange) m) α}
    {h : Option Path → ExceptT Failure m α} {P : Except Failure α → List Exchange → Prop}
    (hgh : Recorded (g d.path).run (h d.path).run P) :
    Recorded (liftM (d.editor rpc.traced).path >>= g).run
      (liftM (d.editor rpc).path >>= h).run P := by
  have hpath : Recorded (d.editor rpc.traced).path (d.editor rpc).path fun path log =>
      path = d.path ∧ log = [] := recorded_pure ⟨rfl, rfl⟩
  refine hpath.bindLift ?_
  rintro path _ ⟨rfl, rfl⟩
  exact hgh

theorem recorded_command :
    Recorded (f.lift.command (some (d.editor rpc.traced))).run (f.command (some (d.editor rpc))).run
      fun _ log => CursorLog d.buffer d.window log :=
  recorded_path rpc d (recorded_run rpc f d f.settings _ true)

theorem recorded_beforeSave :
    Recorded (f.lift.beforeSave (d.editor rpc.traced)).run (f.beforeSave (d.editor rpc)).run
      fun _ => OccasionLog d.buffer d.window := by
  have hquiet : ∀ (failure : Failure) log, Quiet log → OccasionLog d.buffer d.window log :=
    fun _ _ h => .skipped h
  have hprepend : ∀ (result : Except Failure SaveOutcome) first log, Quiet first →
      OccasionLog d.buffer d.window log → OccasionLog d.buffer d.window (first ++ log) :=
    fun _ _ _ hfirst h => h.prepend hfirst
  unfold Formatter.beforeSave
  refine recorded_path rpc d ?_
  cases d.path with
  | none => exact recorded_pure (.skipped .nil)
  | some path =>
      refine (d.asksQuietly_isModified rpc).before hquiet hprepend fun modified => ?_
      cases modified with
      | false => exact recorded_pure (.skipped .nil)
      | true =>
          refine (d.asksQuietly_scope rpc).before hquiet hprepend fun scope => ?_
          have hsettings : (f.lift : Formatter (StateT (List Exchange) m)).settings = f.settings := rfl
          have htree : (f.lift : Formatter (StateT (List Exchange) m)).tree = f.tree := rfl
          simp only [hsettings, htree]
          -- Each reason to leave the document alone ends the questions.
          split
          · exact recorded_pure (.skipped .nil)
          · split
            · exact recorded_pure (.skipped .nil)
            · refine (recorded_run rpc f d _ _ _).bindExcept (fun _ _ h => .ran .nil h) ?_
              intro _ run hrun
              refine recorded_pure ?_
              rw [List.append_nil]
              exact .ran .nil hrun

end Runs

end Restyle.Neovim
