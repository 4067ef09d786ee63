import Restyle.Proofs.Neovim.Requests

/-!
# Finding a Window

The window that a document is opened in.

A buffer may be shown in several windows, and each has a cursor of its own. Opening a document settles
which of them is meant: the current window, if that shows the buffer, and else the first in the list of
windows that does. Whether a window shows a buffer is found out with two requests, one for its buffer and
one for the number of that.

Here the search is read off the exchanges it takes. They tell which window was found, or that none was,
and that no window was asked about after it. All of them are quiet, and so is the rest of an opening.

## Main definitions

* `Showing`: The exchanges that tell the number of the buffer in a window.
* `FirstShowing`, `FindsWindow`: The exchanges of a search, for each window that it may come to.
* `Opening`, `OpeningCurrent`: What comes of opening a buffer, with the exchanges that it takes.

## Theorems

* `recorded_findWindow`: A search stops at the first window that shows the buffer.
* `recorded_ofHandle?`, `recorded_active?`: A document is opened in the window that was found.
-/

namespace Restyle.Neovim

/-- The exchanges that tell the number of the buffer that a window shows. -/
inductive Showing (w : WindowHandle) (shown : Int) : List Exchange → Prop where
  | told (b : Value) {v : Value} (h : v.int? = some shown) :
      Showing w shown [⟨.windowBuffer w, .ok b⟩, ⟨.number ⟨b⟩, .ok v⟩]

/-- The exchanges of a search through windows, for the first that shows a buffer. The windows behind it
    are not asked about. -/
inductive FirstShowing (number : Int) :
    List WindowHandle → Option WindowHandle → List Exchange → Prop where
  | none : FirstShowing number [] none []
  | here {w : WindowHandle} {rest : List WindowHandle} {log : List Exchange}
      (h : Showing w number log) : FirstShowing number (w :: rest) (some w) log
  | later {w : WindowHandle} {rest : List WindowHandle} {found : Option WindowHandle} {shown : Int}
      {log logs : List Exchange} (h : Showing w shown log) (hne : shown ≠ number)
      (hrest : FirstShowing number rest found logs) :
      FirstShowing number (w :: rest) found (log ++ logs)

/-- The exchanges of a search for the window that shows a buffer. The other windows come only after the
    current one, and only if that shows something else. -/
inductive FindsWindow (number : Int) : Option WindowHandle → List Exchange → Prop where
  | current {w : Value} {log : List Exchange} (h : Showing ⟨w⟩ number log) :
      FindsWindow number (some ⟨w⟩) (⟨.currentWindow, .ok w⟩ :: log)
  | listed {w v : Value} {shown : Int} {windows : List Value} {found : Option WindowHandle}
      {log logs : List Exchange} (h : Showing ⟨w⟩ shown log) (hne : shown ≠ number)
      (hv : v.array? = some windows)
      (hlisted : FirstShowing number (windows.map WindowHandle.mk) found logs) :
      FindsWindow number found (⟨.currentWindow, .ok w⟩ :: log ++ ⟨.windows, .ok v⟩ :: logs)

/-- What a search comes to is known from its exchanges. One that fails leaves quiet ones. -/
def Finds {α : Type} (P : α → List Exchange → Prop) :
    Except Failure α → List Exchange → Prop
  | .error _, log => Quiet log
  | .ok a, log => P a log

theorem Showing.quiet {w : WindowHandle} {shown : Int} {log : List Exchange}
    (h : Showing w shown log) : Quiet log := by
  cases h with
  | told b h => exact .cons rfl (.cons rfl .nil)

theorem FirstShowing.quiet {number : Int} {windows : List WindowHandle} {found : Option WindowHandle}
    {log : List Exchange} (h : FirstShowing number windows found log) : Quiet log := by
  induction h with
  | none => exact .nil
  | here h => exact h.quiet
  | later h _ _ ih => exact h.quiet.append ih

theorem FindsWindow.quiet {number : Int} {found : Option WindowHandle} {log : List Exchange}
    (h : FindsWindow number found log) : Quiet log := by
  cases h with
  | current h => exact .cons rfl h.quiet
  | listed h _ _ hlisted => exact .append (.cons rfl h.quiet) (.cons rfl hlisted.quiet)

/-- What comes of opening a buffer, with the exchanges that it takes. -/
inductive Opening (b : BufferHandle) (number : Int) :
    Except Failure (Option Document) → List Exchange → Prop where
  | unopened {result : Except Failure (Option Document)} {log : List Exchange}
      (hresult : ∀ d, result ≠ .ok (some d)) (h : Quiet log) : Opening b number result log
  | opened {d : Document} {before found : List Exchange} (hbuffer : d.buffer = b)
      (hnumber : d.number = number) (hbefore : Quiet before)
      (hfound : FindsWindow number d.window found) :
      Opening b number (.ok (some d)) (before ++ found)

theorem Opening.quiet {b : BufferHandle} {number : Int} {result : Except Failure (Option Document)}
    {log : List Exchange} (h : Opening b number result log) : Quiet log := by
  cases h with
  | unopened _ h => exact h
  | opened _ _ hbefore hfound => exact hbefore.append hfound.quiet

/-- Where quiet exchanges come first, an opening is still one. -/
theorem Opening.prepend {b : BufferHandle} {number : Int}
    {result : Except Failure (Option Document)} {first log : List Exchange} (hfirst : Quiet first)
    (h : Opening b number result log) : Opening b number result (first ++ log) := by
  cases h with
  | unopened hresult h => exact .unopened hresult (hfirst.append h)
  | opened hbuffer hnumber hbefore hfound =>
      rw [← List.append_assoc]
      exact .opened hbuffer hnumber (hfirst.append hbefore) hfound

/-- What comes of opening the current buffer, of which the number has to be asked for. -/
inductive OpeningCurrent : Except Failure (Option Document) → List Exchange → Prop where
  | untold {failure : Failure} (answer : Except RpcError Value) {log : List Exchange}
      (h : Quiet log) : OpeningCurrent (.error failure) (⟨.currentBuffer, answer⟩ :: log)
  | told (b : Value) {v : Value} {number : Int} {result : Except Failure (Option Document)}
      {log : List Exchange} (hv : v.int? = some number) (h : Opening ⟨b⟩ number result log) :
      OpeningCurrent result (⟨.currentBuffer, .ok b⟩ :: ⟨.number ⟨b⟩, .ok v⟩ :: log)

namespace Document

variable {m : Type → Type} [Monad m] [LawfulMonad m] (rpc : Rpc m)

theorem recorded_shownNumber (w : WindowHandle) :
    Recorded (shownNumber rpc.traced w).run (shownNumber rpc w).run (Finds (Showing w)) := by
  unfold shownNumber
  refine (recorded_ask rpc _ _ _).bindExcept ?_ ?_
  · rintro failure _ ⟨answer, -, rfl⟩
    exact .cons rfl .nil
  · rintro b _ ⟨answer, hb, rfl⟩
    obtain ⟨value, rfl, hvalue⟩ := content_of_heard hb.symm
    cases hvalue
    refine (recorded_ask rpc _ _ _).mono ?_
    rintro result _ ⟨answer, rfl, rfl⟩
    cases hresult : heard none Value.int? answer with
    | error failure => exact .cons rfl (.cons rfl .nil)
    | ok shown =>
        obtain ⟨v, rfl, hv⟩ := content_of_heard hresult
        exact .told _ hv

/-- One window is asked about after the other, until one shows the buffer. -/
theorem recorded_firstShowing (number : Int) (windows : List WindowHandle) :
    Recorded (firstShowing rpc.traced number windows).run (firstShowing rpc number windows).run
      (Finds (FirstShowing number windows)) := by
  induction windows with
  | nil => exact recorded_pure .none
  | cons w rest ih =>
      unfold firstShowing
      refine (recorded_shownNumber rpc w).bindExcept (fun _ _ h => h) fun shown log hshown => ?_
      by_cases h : shown = number
      · rw [if_pos h, if_pos h]
        refine recorded_pure ?_
        rw [List.append_nil]
        exact .here (h ▸ hshown)
      · -- The windows behind come into it only where another buffer is shown.
        rw [if_neg h, if_neg h]
        refine ih.mono fun result logs hrest => ?_
        cases result with
        | error failure => exact hshown.quiet.append hrest
        | ok found => exact .later hshown h hrest

/-- A search stops at the first window that shows the buffer, and the current one comes first. -/
theorem recorded_findWindow (number : Int) :
    Recorded (findWindow rpc.traced number).run (findWindow rpc number).run
      (Finds (FindsWindow number)) := by
  unfold findWindow
  refine (recorded_ask rpc _ _ _).bindExcept ?_ ?_
  · rintro failure _ ⟨answer, -, rfl⟩
    exact .cons rfl .nil
  · rintro current _ ⟨answer, hanswer, rfl⟩
    obtain ⟨w, rfl, hw⟩ := content_of_heard hanswer.symm
    cases hw
    have hcurrent : ∀ {log : List Exchange}, Quiet log →
        Quiet (⟨.currentWindow, .ok current⟩ :: log) := Quiet.cons rfl
    refine (recorded_shownNumber rpc _).bindExcept (fun _ _ h => hcurrent h) fun shown log hshown => ?_
    by_cases h : shown = number
    · rw [if_pos h, if_pos h]
      refine recorded_pure ?_
      rw [List.append_nil]
      exact .current (h ▸ hshown)
    · -- The current window comes up again in the list, and is asked about again.
      rw [if_neg h, if_neg h]
      refine (recorded_ask rpc _ _ _).bindExcept ?_ ?_
      · rintro failure _ ⟨answer, -, rfl⟩
        exact (hcurrent hshown.quiet).append (.cons rfl .nil)
      · rintro windows _ ⟨answer, hwindows, rfl⟩
        obtain ⟨v, rfl, hv⟩ := content_of_heard hwindows.symm
        refine (recorded_firstShowing rpc number _).mono fun result logs hrest => ?_
        cases result with
        | error failure => exact (hcurrent hshown.quiet).append (.cons rfl hrest)
        | ok found => exact .listed hshown h hv hrest

/-- A buffer that is opened is shown in the window that was found, which comes after all else that is
    asked about it. -/
theorem recorded_ofHandle? (b : BufferHandle) (number : Int) (commandRange : Option (Int × Int)) :
    Recorded (ofHandle? rpc.traced b number commandRange).run
      (ofHandle? rpc b number commandRange).run (Opening b number) := by
  have hfailed : ∀ failure log, Quiet log → Opening b number (.error failure) log :=
    fun _ _ h => .unopened (fun _ => nofun) h
  have hprepend : ∀ result first log, Quiet first → Opening b number result log →
      Opening b number result (first ++ log) := fun _ _ _ hfirst h => h.prepend hfirst
  unfold ofHandle?
  refine AsksQuietly.before (.ask rpc rfl _ _) hfailed hprepend fun valid => ?_
  cases valid with
  | false => exact recorded_pure (.unopened (fun _ => nofun) .nil)
  | true =>
      refine (asksQuietly_isFileBuffer rpc b).before hfailed hprepend fun isFile => ?_
      cases isFile with
      | false => exact recorded_pure (.unopened (fun _ => nofun) .nil)
      | true =>
          refine AsksQuietly.before (.ask rpc rfl _ _) hfailed hprepend fun name => ?_
          refine (recorded_findWindow rpc number).bindExcept hfailed fun window log hfound => ?_
          refine recorded_pure ?_
          rw [List.append_nil, ← List.nil_append log]
          exact .opened rfl rfl .nil hfound

theorem recorded_active? (commandRange : Option (Int × Int)) :
    Recorded (active? rpc.traced commandRange).run (active? rpc commandRange).run
      OpeningCurrent := by
  unfold active?
  refine (recorded_ask rpc _ _ _).bindExcept ?_ ?_
  · rintro failure _ ⟨answer, -, rfl⟩
    exact .untold answer .nil
  · rintro buffer _ ⟨answer, hbuffer, rfl⟩
    obtain ⟨b, rfl, hb⟩ := content_of_heard hbuffer.symm
    cases hb
    refine (recorded_ask rpc _ _ _).bindExcept ?_ ?_
    · rintro failure _ ⟨answer, -, rfl⟩
      exact .untold _ (.cons rfl .nil)
    · rintro number _ ⟨answer, hnumber, rfl⟩
      obtain ⟨v, rfl, hv⟩ := content_of_heard hnumber.symm
      exact (recorded_ofHandle? rpc ⟨buffer⟩ number commandRange).mono fun _ _ h => .told _ hv h

end Document

end Restyle.Neovim
