import Restyle.Proofs.Discipline
import Restyle.Proofs.Neovim.Sessions

/-!
# Visits

One cursor for each visit to a document, and a row that exists.

A cursor is something a user looks at. If it were read in one window and put back in another, or put
below the last line, text would jump on the screen although nothing was wrong with the text. So what is
known of openings, of runs and of events is put together here. From the request for the current buffer
to the release of a write there is one search for a window, and only the cursor of the window found is
read, and moved at most once. Between the two the text may have changed, so the row depends on the number
of lines that is read right before.

Nothing is assumed of the answers. Any of them may be a refusal, or a value of no use.

## Theorems

* `CursorLog.window_eq`: A run touches the cursor of its own window only.
* `cursor_of_found_window`: In a visit only the cursor of the window that was found is touched, and it is
  put back on a row that exists.
-/

namespace Restyle.Neovim

/-- A run touches the cursor of its own window only. -/
theorem CursorLog.window_eq {b : BufferHandle} {window : Option WindowHandle} {log : List Exchange}
    (h : CursorLog b window log) {e : Exchange} (he : e ∈ log) {w : WindowHandle}
    (hw : e.request.cursorWindow? = some w) : window = some w := by
  have hquiet : ∀ {log : List Exchange}, Quiet log → e ∉ log := by
    intro log h he
    rw [h.cursorless e he] at hw
    cases hw
  cases h with
  | nowhere h => exact absurd he (hquiet h)
  | left w' answer h =>
      rcases List.mem_cons.mp he with rfl | he
      · exact hw
      · exact absurd he (hquiet h)
  | moved w' answer hposition h hlines hrestores =>
      rcases List.mem_append.mp he with he | he
      · rcases List.mem_cons.mp he with rfl | he
        · exact hw
        · exact absurd he (hquiet h)
      · rcases List.mem_cons.mp he with rfl | he
        · cases hw
        · cases List.mem_singleton.mp he
          exact hw

namespace Host

variable {m : Type → Type} [Monad m] [LawfulMonad m] (rpc : Rpc m) (f : Formatter m)

/-- A buffer is opened in the current window if that shows it, else in the first window of the list that
    does, and else in none. A run reads the cursor of that window first and, if it comes that far, moves
    it last, to the row that was read or to the last one there is. No other cursor is touched by it, nor
    by the command or the save that it is a part of. -/
theorem cursor_of_found_window :
    (∀ b number commandRange,
      Recorded (Document.ofHandle? rpc.traced b number commandRange).run
        (Document.ofHandle? rpc b number commandRange).run (Opening b number)) ∧
    (∀ d settings style selectionOnly,
      Recorded (f.lift.run (Document.editor rpc.traced d) settings style selectionOnly).run
        (f.run (Document.editor rpc d) settings style selectionOnly).run fun _ log =>
          CursorLog d.buffer d.window log ∧
          ∀ e ∈ log, ∀ w, e.request.cursorWindow? = some w → d.window = some w) ∧
    (∀ range,
      Recorded (handle rpc.traced f.lift (.format range)).run (handle rpc f (.format range)).run
        fun _ => CurrentVisit) ∧
    ∀ buffer,
      Recorded (handle rpc.traced f.lift (.willSave buffer)).run
        (handle rpc f (.willSave buffer)).run fun _ log =>
          ∃ visit answer, Visit (.ofNumber buffer) buffer visit ∧
            log = visit ++ [⟨.runScript .releaseSave [.int buffer], answer⟩] := by
  refine ⟨Document.recorded_ofHandle? rpc, ?_, recorded_formatOf rpc f, fun buffer => ?_⟩
  · intro d settings style selectionOnly
    refine (Neovim.recorded_run rpc f d settings style selectionOnly).mono fun _ log h => ?_
    exact ⟨h, fun e he w hw => h.window_eq he hw⟩
  · refine (recorded_willSaveOf rpc f buffer).mono ?_
    rintro _ _ ⟨outcome, visit, answer, hvisit, hlog, -⟩
    exact ⟨visit, answer, hvisit, hlog⟩

section Witness

/-- A peer with three windows. The current one shows another buffer, and the second is the first to show
    the current buffer, with the cursor on the third row. After the lines are set there is one line. -/
def threeWindows : Peer :=
  { replies :=
      [.ok (.int 4), .ok (.int 4), .ok (.bool true), .ok (.str []), .ok (.str []),
        .ok (.int 1000), .ok (.int 9), .ok (.int 9),
        .ok (.array [.int 1000, .int 1001, .int 1002]), .ok (.int 9), .ok (.int 9),
        .ok (.int 4), .ok (.int 4),
        .ok (.array [.int 3, .int 2]), .ok (.array []), .ok .nil, .ok (.int 1), .ok .nil] }

/-- What a command comes to with that peer, and its exchanges. -/
def threeWindowsCommand : Except Failure Unit × List Exchange :=
  ((handle (m := StateT (List Exchange) (StateM Peer)) (Rpc.traced Peer.rpc) blanking.lift
    (.format none)).run.run [] threeWindows).1

theorem cursor_of_found_window_threeWindows :
    LawfulMonad (StateM Peer) ∧
      threeWindowsCommand.1 = .ok () ∧
      threeWindowsCommand.2.filterMap (fun e => e.request.cursorWindow?.map fun _ => e.request) =
        [.cursor ⟨.int 1001⟩, .setCursor ⟨.int 1001⟩ 1 2] ∧
      .windowBuffer ⟨.int 1002⟩ ∉ threeWindowsCommand.2.map Exchange.request ∧
      CurrentVisit threeWindowsCommand.2 := by
  rcases cursor_of_found_window (Peer.rpc (m := Id)) blanking with ⟨-, -, hformat, -⟩
  exact ⟨inferInstance, rfl, rfl, by decide, (hformat none).of_state threeWindows⟩

end Witness

end Host

end Restyle.Neovim
