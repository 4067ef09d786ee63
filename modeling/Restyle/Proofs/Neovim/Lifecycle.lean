import Mathlib.Data.List.Forall2
import Mathlib.Data.List.TakeWhile
import Restyle.Proofs.Neovim.Sessions

/-!
# The Life of a Host

From the first request on a connection to the last.

A host that cannot get its channel or its registration has nothing to give back, so it stops at once.
From there on nothing stops it but the notification that detaches, or the end of all notifications.
`Event.pending` is what it has to handle: the events among the notifications, up to the one that
detaches. They are handled one after the other, each in a session of its own, and what came of one is
forgotten before the next. Then the registration is given back, for the channel it was made for.

Both halves of this are stated. The run is an equation, with the pending events in place of the loop over
notifications. And the log of its requests is that of the sessions, in order, between the registration
and its end. Since a session is known by its milestone, the milestones in the log are those of the
pending events, with nothing in between.

## Main definitions

* `Event.pending`: The events that a host has to handle.
* `Event.milestone`: The milestone of an event's session.
* `Lifecycle`: What comes of a host, with the exchanges that it takes.

## Theorems

* `serve_eq_forM`: Notifications are served by handling the events that are pending.
* `Lifecycle.milestones`: The milestones of a host that is registered.
* `run_lifecycle`: A host handles what is pending in order, and at last gives its registration back.
-/

namespace Restyle.Neovim

/-- The events among notifications, up to the one that detaches. -/
def Event.pending (notifications : List Notification) : List Event :=
  (notifications.filterMap Event.ofNotification?).takeWhile (· ≠ .detach)

/-- The milestone of an event's session. -/
def Event.milestone : Event → List Request
  | .format _ => [.currentBuffer]
  | .willSave buffer => [.runScript .releaseSave [.int buffer]]
  | .detach => []

theorem Event.ne_detach_of_mem_pending {notifications : List Notification} {event : Event}
    (h : event ∈ pending notifications) : event ≠ .detach := by
  have hkept := List.mem_takeWhile_imp h
  exact of_decide_eq_true hkept

namespace Host

/-- The channel in the items that an editor tells of itself, or why there is none. -/
def channelIn (info : List Value) : Except Failure Int :=
  match info.head?.bind Value.int? with
  | some channel => .ok channel
  | none => .error .noChannel

/-- The channel that an answer to the first request tells. -/
def heardChannel (answer : Except RpcError Value) : Except Failure Int :=
  heard (some .apiInfo) Value.array? answer >>= channelIn

/-- What comes of a host with certain events to handle, and the exchanges that it takes. -/
inductive Lifecycle (events : List Event) : Except Failure Unit → List Exchange → Prop where
  | withoutChannel {failure : Failure} {answer : Except RpcError Value}
      (h : heardChannel answer = .error failure) :
      Lifecycle events (.error failure) [⟨.apiInfo, answer⟩]
  | unregistered {channel : Int} {answer : Except RpcError Value} (cause : RpcError)
      (h : heardChannel answer = .ok channel) :
      Lifecycle events (.error (.request (some .register) cause))
        [⟨.apiInfo, answer⟩, ⟨.runScript .setup [.int channel], .error cause⟩]
  | served {channel : Int} {answer : Except RpcError Value} {sessions : List (List Exchange)}
      (registered : Value) (released : Except RpcError Value)
      (h : heardChannel answer = .ok channel)
      (hsessions : List.Forall₂ (fun event log => ∃ result, Session event result log) events
        sessions) :
      Lifecycle events (.ok ())
        ([⟨.apiInfo, answer⟩, ⟨.runScript .setup [.int channel], .ok registered⟩] ++
          sessions.flatten ++ [⟨.runScript .teardown [.int channel], released⟩])

/-- The milestones among the requests of a log. -/
def milestones (log : List Exchange) : List Request :=
  (log.map Exchange.request).filter Request.isMilestone

theorem milestones_append (a b : List Exchange) :
    milestones (a ++ b) = milestones a ++ milestones b := by
  rw [milestones, List.map_append, List.filter_append]
  rfl

theorem milestones_of_routine {log : List Exchange} (h : Routine log) : milestones log = [] := by
  refine List.filter_eq_nil_iff.mpr fun request hrequest => ?_
  rcases List.mem_map.mp hrequest with ⟨e, he, rfl⟩
  exact Bool.eq_false_iff.mp (h e he)

/-- A session has one milestone, by which its event is known. -/
theorem Session.milestones_eq {event : Event} {result : Except Failure Unit} {log : List Exchange}
    (h : Session event result log) : milestones log = event.milestone := by
  cases h with
  | format answer h =>
      have hrest := milestones_of_routine h
      exact congrArg (Request.currentBuffer :: ·) hrest
  | willSave outcome answer h =>
      rw [milestones_append, milestones_of_routine h]
      rfl

theorem milestones_flatten {events : List Event} {sessions : List (List Exchange)}
    (h : List.Forall₂ (fun event log => ∃ result, Session event result log) events sessions) :
    milestones sessions.flatten = events.flatMap Event.milestone := by
  induction h with
  | nil => rfl
  | cons hsession _ ih =>
      rcases hsession with ⟨result, hsession⟩
      rw [List.flatten_cons, milestones_append, hsession.milestones_eq, ih, List.flatMap_cons]

/-- A host that is registered passes the milestones of its events in order, between its own. -/
theorem Lifecycle.milestones_eq {events : List Event} {log : List Exchange}
    (h : Lifecycle events (.ok ()) log) :
    ∃ channel, milestones log =
      .apiInfo :: .runScript .setup [.int channel] ::
        (events.flatMap Event.milestone ++ [.runScript .teardown [.int channel]]) := by
  cases h with
  | @served channel answer sessions registered released h hsessions =>
      refine ⟨channel, ?_⟩
      rw [milestones_append, milestones_append, milestones_flatten hsessions]
      rfl

variable {m : Type → Type} [Monad m] [LawfulMonad m] (rpc : Rpc m) (f : Formatter m)

/-- Handle an event, and forget what came of it. -/
def attempt (event : Event) : m Unit := do
  let _ ← (handle rpc f event).run
  pure ()

theorem serve_cons {n : Notification} {event : Event} (h : Event.ofNotification? n = some event)
    (hne : event ≠ .detach) (rest : List Notification) :
    serve rpc f (n :: rest) = attempt rpc f event >>= fun _ => serve rpc f rest := by
  rw [serve, h, attempt, bind_assoc]
  cases event with
  | detach => exact absurd rfl hne
  | format range => simp only [pure_bind]
  | willSave buffer => simp only [pure_bind]

/-- Notifications are served by handling the events that are pending. -/
theorem serve_eq_forM (notifications : List Notification) :
    serve rpc f notifications = (Event.pending notifications).forM (attempt rpc f) := by
  unfold Event.pending
  induction notifications with
  | nil => rfl
  | cons n rest ih =>
      cases hevent : Event.ofNotification? n with
      | none =>
          rw [serve, hevent, List.filterMap_cons_none hevent]
          exact ih
      | some event =>
          rw [List.filterMap_cons_some hevent]
          by_cases hdetach : event = .detach
          · -- Both the loop and the list of pending events end here.
            rw [hdetach, serve, hevent, hdetach]
            rfl
          · rw [serve_cons rpc f hevent hdetach, ih, List.takeWhile_cons,
              if_pos (decide_eq_true hdetach)]
            rfl

theorem recorded_attempt {event : Event} (h : event ≠ .detach) :
    Recorded (attempt rpc.traced f.lift event) (attempt rpc f event) fun _ log =>
      ∃ result, Session event result log := by
  unfold attempt
  refine (recorded_handle rpc f h).bind fun result log hsession => recorded_pure ?_
  rw [List.append_nil]
  exact ⟨result, hsession⟩

/-- Events are handled in as many sessions, one after the other. -/
theorem recorded_forM {events : List Event} (h : ∀ event ∈ events, event ≠ .detach) :
    Recorded (events.forM (attempt rpc.traced f.lift)) (events.forM (attempt rpc f)) fun _ log =>
      ∃ sessions, log = sessions.flatten ∧
        List.Forall₂ (fun event log => ∃ result, Session event result log) events sessions := by
  induction events with
  | nil => exact recorded_pure ⟨[], rfl, .nil⟩
  | cons event rest ih =>
      have hrest := ih fun e he => h e (List.mem_cons_of_mem _ he)
      refine (recorded_attempt rpc f (h event List.mem_cons_self)).bind fun _ log hsession => ?_
      refine hrest.mono ?_
      rintro _ _ ⟨sessions, rfl, hsessions⟩
      exact ⟨log :: sessions, List.flatten_cons, .cons hsession hsessions⟩

theorem recorded_channel :
    Recorded (channel rpc.traced).run (channel rpc).run fun result log =>
      ∃ answer, heardChannel answer = result ∧ log = [⟨.apiInfo, answer⟩] := by
  unfold channel
  refine (recorded_ask rpc _ _ _).bindExcept ?_ ?_
  · rintro failure _ ⟨answer, hheard, rfl⟩
    refine ⟨answer, ?_, rfl⟩
    rw [heardChannel, ← hheard]
    rfl
  · rintro info _ ⟨answer, hheard, rfl⟩
    have hinfo : heardChannel answer = channelIn info := by
      rw [heardChannel, ← hheard]
      rfl
    rw [channelIn] at hinfo
    cases hchannel : info.head?.bind Value.int? with
    | none =>
        rw [hchannel] at hinfo
        exact recorded_pure ⟨answer, hinfo, rfl⟩
    | some channel =>
        rw [hchannel] at hinfo
        exact recorded_pure ⟨answer, hinfo, rfl⟩

theorem recorded_release (channel : Int) :
    Recorded (release rpc.traced channel) (release rpc channel) fun _ log =>
      ∃ answer, log = [⟨.runScript .teardown [.int channel], answer⟩] := by
  unfold release
  refine Recorded.bind (recorded_record (rpc _) _) ?_
  rintro answer _ rfl
  cases answer with
  | error cause => exact recorded_pure ⟨.error cause, rfl⟩
  | ok released => exact recorded_pure ⟨.ok released, rfl⟩

theorem recorded_run (notifications : List Notification) :
    Recorded (run rpc.traced f.lift notifications).run (run rpc f notifications).run
      (Lifecycle (Event.pending notifications)) := by
  unfold run
  rw [serve_eq_forM, serve_eq_forM]
  refine (recorded_channel rpc).bindExcept ?_ ?_
  · rintro failure _ ⟨answer, hchannel, rfl⟩
    exact .withoutChannel hchannel
  · rintro channel _ ⟨answer, hchannel, rfl⟩
    refine (recorded_ask rpc _ _ _).bindExcept ?_ ?_
    · rintro failure _ ⟨registered, hregistered, rfl⟩
      cases registered with
      | error cause =>
          -- Only a refusal fails, since any value counts as done.
          cases hregistered
          exact .unregistered cause hchannel
      | ok value => cases hregistered
    · rintro _ _ ⟨registered, hregistered, rfl⟩
      cases registered with
      | error cause => cases hregistered
      | ok value =>
          -- From here on nothing can fail, since what comes of an event is forgotten.
          refine (recorded_forM rpc f fun _ => Event.ne_detach_of_mem_pending).bindLift ?_
          rintro _ _ ⟨sessions, rfl, hsessions⟩
          refine (recorded_release rpc channel).bindLift ?_
          rintro _ _ ⟨released, rfl⟩
          have hserved := Lifecycle.served value released hchannel hsessions
          rw [List.append_assoc, ← List.append_nil [_]] at hserved
          exact recorded_pure hserved

/-- A host that gets no channel or no registration reports why and asks nothing more. Otherwise it
    succeeds, whatever comes of the events: it handles those that are pending, each in one session and in
    order, and its last request gives the registration back for the channel that it was made for. -/
theorem run_lifecycle (notifications : List Notification) :
    (run rpc f notifications = do
      let channel ← channel rpc
      register rpc channel
      ExceptT.lift ((Event.pending notifications).forM (attempt rpc f))
      let _ ← ExceptT.lift (release rpc channel)
      pure ()) ∧
    Recorded (run rpc.traced f.lift notifications).run (run rpc f notifications).run
      (Lifecycle (Event.pending notifications)) ∧
    ∀ log, Lifecycle (Event.pending notifications) (.ok ()) log → ∃ channel, milestones log =
      .apiInfo :: .runScript .setup [.int channel] ::
        ((Event.pending notifications).flatMap Event.milestone ++
          [.runScript .teardown [.int channel]]) := by
  refine ⟨?_, recorded_run rpc f notifications, fun log h => h.milestones_eq⟩
  rw [run, serve_eq_forM]

section Witness

/-- A save, a command, the end, and one more save, with something unknown in between. -/
def unluckyNotifications : List Notification :=
  [⟨"will_save".toList, [.int 4]⟩, ⟨"bogus".toList, []⟩, ⟨"format".toList, []⟩,
    ⟨"detach".toList, []⟩, ⟨"will_save".toList, [.int 5]⟩]

/-- A peer that registers the host for a channel and refuses everything from there on. -/
def refusesEvents : Peer :=
  { replies := [.ok (.array [.int 3, .map []]), .ok .nil] }

/-- What comes of a host with that peer, and its exchanges. -/
def unluckyRun : Except Failure Unit × List Exchange :=
  ((run (m := StateT (List Exchange) (StateM Peer)) (Rpc.traced Peer.rpc) idle.lift
    unluckyNotifications).run.run [] refusesEvents).1

theorem run_lifecycle_unlucky :
    LawfulMonad (StateM Peer) ∧
      Event.pending unluckyNotifications = [.willSave 4, .format none] ∧
      unluckyRun = (.ok (),
        [⟨.apiInfo, .ok (.array [.int 3, .map []])⟩, ⟨.runScript .setup [.int 3], .ok .nil⟩,
          ⟨.isValid (.ofNumber 4), .error Peer.silent⟩,
          ⟨.runScript .releaseSave [.int 4], .error Peer.silent⟩,
          ⟨.currentBuffer, .error Peer.silent⟩,
          ⟨.runScript .teardown [.int 3], .error Peer.silent⟩]) ∧
      Lifecycle (Event.pending unluckyNotifications) unluckyRun.1 unluckyRun.2 := by
  rcases run_lifecycle (Peer.rpc (m := Id)) idle unluckyNotifications with ⟨-, hlog, -⟩
  exact ⟨inferInstance, rfl, rfl, hlog.of_state refusesEvents⟩

end Witness

end Host

end Restyle.Neovim
