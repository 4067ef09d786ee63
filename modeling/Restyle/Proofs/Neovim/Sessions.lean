import Restyle.Neovim.Peer
import Restyle.Proofs.Neovim.Cursor

/-!
# Sessions

What the host asks of the editor while it handles one event.

An event is handled in one session, and each kind of event has a milestone of its own. A command starts
with the request for the current buffer. A save ends with the request that lets the write proceed, since
the editor holds the write until then. Between the milestone and the other end of the session there is
nothing but what is asked for the document, so the milestone is made once, and the host is known to have
handled an event by it.

For a save this has to hold however the formatting ends. The document may not be opened, there may be a
reason to leave it alone, or any request may be refused on the way, and then the rest of the formatting
is left out, but not the release. So the release is the last request, after all that was written and
after the cursor was put back. What is reported is why the release failed, and otherwise what became of
the formatting.

## Main definitions

* `reported`: What is reported of a save.
* `Session`: What comes of an event, with the exchanges that it takes.

## Theorems

* `recorded_handle`: An event is handled in a session.
* `releaseSave_last`: A write is let go once and last, whatever came before, and by no command.
-/

namespace Restyle.Neovim.Host

/-- What is reported of a save, of which the formatting had an outcome and the release an answer. -/
def reported : Except Failure (Option SaveOutcome) → Except RpcError Value → Except Failure Unit
  | _, .error cause => .error (.request (some .releaseSave) cause)
  | outcome, .ok _ => outcome.map fun _ => ()

/-- What comes of an event, with the exchanges that it takes. -/
inductive Session : Event → Except Failure Unit → List Exchange → Prop where
  | format {range : Option (Int × Int)} {result : Except Failure Unit} {rest : List Exchange}
      (answer : Except RpcError Value) (h : Routine rest) :
      Session (.format range) result (⟨.currentBuffer, answer⟩ :: rest)
  | willSave {buffer : Int} {hook : List Exchange} (outcome : Except Failure (Option SaveOutcome))
      (answer : Except RpcError Value) (h : Routine hook) :
      Session (.willSave buffer) (reported outcome answer)
        (hook ++ [⟨.runScript .releaseSave [.int buffer], answer⟩])

variable {m : Type → Type} [Monad m] [LawfulMonad m] (rpc : Rpc m) (f : Formatter m)

/-- The release is heard as it is answered, since nothing is looked at in its value. -/
theorem recorded_releaseSave (buffer : Int) :
    Recorded (releaseSave rpc.traced buffer).run (releaseSave rpc buffer).run fun result log =>
      ∃ answer, log = [⟨.runScript .releaseSave [.int buffer], answer⟩] ∧
        result = reported (.ok none) answer := by
  refine (recorded_ask rpc _ _ _).mono ?_
  rintro result log ⟨answer, rfl, rfl⟩
  refine ⟨answer, rfl, ?_⟩
  cases answer with
  | error cause => rfl
  | ok value => rfl

theorem recorded_beforeSaveOf (buffer : Int) :
    Recorded (beforeSave rpc.traced f.lift buffer).run (beforeSave rpc f buffer).run
      fun _ => Visit (.ofNumber buffer) buffer := by
  unfold beforeSave
  refine (Document.recorded_ofHandle? rpc _ _ _).bindExcept (fun _ _ h => .unopened h.quiet) ?_
  intro d log h
  cases d with
  | none =>
      refine recorded_pure ?_
      rw [List.append_nil]
      exact .unopened h.quiet
  | some d =>
      simp only [map_eq_pure_bind]
      refine (recorded_beforeSave rpc f d).bindExcept (fun _ _ hrest => h.visit hrest) ?_
      intro outcome rest hrest
      refine recorded_pure ?_
      rw [List.append_nil]
      exact h.visit hrest

/-- A save is a visit and then the release, whatever became of the visit. -/
theorem recorded_willSaveOf (buffer : Int) :
    Recorded (handle rpc.traced f.lift (.willSave buffer)).run
      (handle rpc f (.willSave buffer)).run fun result log =>
        ∃ outcome visit answer, Visit (.ofNumber buffer) buffer visit ∧
          log = visit ++ [⟨.runScript .releaseSave [.int buffer], answer⟩] ∧
          result = reported outcome answer := by
  unfold handle
  rw [ExceptT.run_mk, ExceptT.run_mk]
  refine Recorded.bind (recorded_beforeSaveOf rpc f buffer) ?_
  intro outcome visit hvisit
  -- The release follows an outcome of either kind.
  refine (recorded_releaseSave rpc buffer).bind ?_
  rintro released _ ⟨answer, rfl, rfl⟩
  cases answer with
  | error cause =>
      refine recorded_pure ⟨outcome, visit, .error cause, hvisit, ?_, rfl⟩
      rw [List.append_nil]
  | ok value =>
      refine recorded_pure ⟨outcome, visit, .ok value, hvisit, ?_, rfl⟩
      rw [List.append_nil]

theorem recorded_willSave (buffer : Int) :
    Recorded (handle rpc.traced f.lift (.willSave buffer)).run
      (handle rpc f (.willSave buffer)).run (Session (.willSave buffer)) := by
  refine (recorded_willSaveOf rpc f buffer).mono ?_
  rintro _ _ ⟨outcome, visit, answer, hvisit, rfl, rfl⟩
  exact .willSave outcome answer hvisit.routine

/-- A command begins with the request for the current buffer, whatever the answer. -/
theorem recorded_formatOf (range : Option (Int × Int)) :
    Recorded (handle rpc.traced f.lift (.format range)).run (handle rpc f (.format range)).run
      fun _ => CurrentVisit := by
  refine (Document.recorded_active? rpc range).bindExcept ?_ ?_
  · intro failure log h
    cases h with
    | untold answer h => exact .untold answer h
    | told b hv h => exact .told b hv (.unopened h.quiet)
  · intro d log h
    cases h with
    | @told b v number _ log hv h =>
        cases d with
        | none =>
            refine recorded_pure ?_
            rw [List.append_nil]
            exact .told b hv (.unopened h.quiet)
        | some d =>
            refine (recorded_command rpc f d).mono fun _ run hrun => ?_
            exact .told b hv (h.visit (.ran .nil hrun))

theorem recorded_format (range : Option (Int × Int)) :
    Recorded (handle rpc.traced f.lift (.format range)).run (handle rpc f (.format range)).run
      (Session (.format range)) := by
  refine (recorded_formatOf rpc f range).mono fun _ log h => ?_
  cases h with
  | untold answer h => exact .format answer h.routine
  | told b hv h => exact .format _ (List.forall_mem_cons.mpr ⟨rfl, h.routine⟩)

/-- An event is handled in a session. -/
theorem recorded_handle {event : Event} (h : event ≠ .detach) :
    Recorded (handle rpc.traced f.lift event).run (handle rpc f event).run (Session event) := by
  cases event with
  | format range => exact recorded_format rpc f range
  | willSave buffer => exact recorded_willSave rpc f buffer
  | detach => exact absurd rfl h

/-- A write is let go by the last request of its session, and by no other request, whatever is
    answered and wherever an error occurs. What is reported is the failure of the release, and else what
    became of the formatting. A command lets no write go. -/
theorem releaseSave_last :
    (∀ buffer, Recorded (handle rpc.traced f.lift (.willSave buffer)).run
      (handle rpc f (.willSave buffer)).run fun result log =>
        ∃ hook answer outcome,
          (∀ e ∈ hook, ∀ arguments, e.request ≠ .runScript .releaseSave arguments) ∧
          log = hook ++ [⟨.runScript .releaseSave [.int buffer], answer⟩] ∧
          result = reported outcome answer) ∧
    (∀ buffer, (handle rpc f (.willSave buffer)).run = do
      let outcome ← (beforeSave rpc f buffer).run
      let answer ← rpc (.runScript .releaseSave [.int buffer])
      pure (reported outcome answer)) ∧
    ∀ range, Recorded (handle rpc.traced f.lift (.format range)).run
      (handle rpc f (.format range)).run fun _ log =>
        ∀ e ∈ log, ∀ arguments, e.request ≠ .runScript .releaseSave arguments := by
  -- The release is a milestone, so routine exchanges are free of it.
  have hroutine : ∀ {log : List Exchange}, Routine log →
      ∀ e ∈ log, ∀ arguments, e.request ≠ .runScript .releaseSave arguments := by
    intro log h e he arguments heq
    have hmilestone := h e he
    rw [heq] at hmilestone
    cases hmilestone
  refine ⟨fun buffer => ?_, fun buffer => ?_, fun range => ?_⟩
  · refine (recorded_willSave rpc f buffer).mono fun result log h => ?_
    cases h with
    | willSave outcome answer h => exact ⟨_, answer, outcome, hroutine h, rfl, rfl⟩
  · unfold handle releaseSave
    rw [ExceptT.run_mk, run_ask]
    refine bind_congr fun outcome => ?_
    rw [bind_map_left]
    refine bind_congr fun answer => ?_
    cases answer with
    | error cause => rfl
    | ok value => rfl
  · refine (recorded_format rpc f range).mono fun result log h => ?_
    cases h with
    | format answer h =>
        intro e he arguments
        rcases List.mem_cons.mp he with rfl | he
        · exact fun heq => nomatch heq
        · exact hroutine h e he arguments

section Witness

/-- A formatter with nothing to do. -/
def idle : Formatter (StateM Peer) where
  tree := .empty
  source := .fixed {}
  libraries := ⟨fun text _ _ => pure (.ok text), fun _ _ _ => pure (.ok {})⟩

/-- A peer that refuses to tell what a buffer holds, and then lets its write go. -/
def losesBuffer : Peer :=
  { replies := [.ok (.bool true), .error Peer.silent, .ok .nil] }

/-- What a save comes to with that peer, and its exchanges. -/
def lostSave : Except Failure Unit × List Exchange :=
  ((handle (m := StateT (List Exchange) (StateM Peer)) (Rpc.traced Peer.rpc) idle.lift
    (.willSave 4)).run.run [] losesBuffer).1

theorem releaseSave_last_losesBuffer :
    LawfulMonad (StateM Peer) ∧
      ((handle Peer.rpc idle (.willSave 4)).run.run losesBuffer).1 =
        .error (.request (some .bufferKind) Peer.silent) ∧
      lostSave.2 =
        [⟨.isValid (.ofNumber 4), .ok (.bool true)⟩,
          ⟨.option (.ofNumber 4) .kind, .error Peer.silent⟩,
          ⟨.runScript .releaseSave [.int 4], .ok .nil⟩] ∧
      ∃ hook answer outcome,
        (∀ e ∈ hook, ∀ arguments, e.request ≠ .runScript .releaseSave arguments) ∧
        lostSave.2 = hook ++ [⟨.runScript .releaseSave [.int 4], answer⟩] ∧
        lostSave.1 = reported outcome answer := by
  rcases releaseSave_last (Peer.rpc (m := Id)) idle with ⟨hlog, hrun, -⟩
  refine ⟨inferInstance, ?_, rfl, (hlog 4).of_state losesBuffer⟩
  rw [hrun]
  rfl

end Witness

end Restyle.Neovim.Host
