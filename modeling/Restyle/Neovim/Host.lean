import Restyle.Formatter
import Restyle.Neovim.Document
import Restyle.Neovim.Event

/-!
# The Host

Serving a running editor until it detaches.

The host registers its hooks for the channel of its connection, handles one event after the other, and
gives the registration back at the end. An event that cannot be handled does not keep the next one from
being handled. A write waits for its event, so it is let go whatever came of it.

## Main definitions

* `Host.greeting`: The first message on a connection.
* `Host.channel`: The channel of the connection.
* `Host.register`, `Host.release`: The registration.
* `Host.handle`: One event.
* `Host.run`: From the first request to the last.
-/

namespace Restyle.Neovim.Host

variable {m : Type → Type} [Monad m]

/-- The first message on a connection, a request for its channel. It is written before anyone is known
    to listen. The message is an array of four items: zero for a request, the number zero because it
    is the first, the method, and no parameters. -/
def greeting : List UInt8 :=
  let method := Request.apiInfo.method.toUtf8
  [0x94, 0x00, 0x00, 0xa0 + UInt8.ofNat method.length] ++ method ++ [0x90]

/-- The channel that the editor has given to the connection. -/
def channel (rpc : Rpc m) : ExceptT Failure m Int := do
  let info ← rpc.ask (some .apiInfo) .apiInfo Value.array?
  match info.head?.bind Value.int? with
  | some n => pure n
  | none => throw .noChannel

/-- Register the hooks and the command for a channel. -/
def register (rpc : Rpc m) (channel : Int) : ExceptT Failure m Unit :=
  rpc.ask (some .register) (.runScript .setup [.int channel]) fun _ => some ()

/-- Give the registration of a channel back. The answer says whether it was still there. -/
def release (rpc : Rpc m) (channel : Int) : m Bool := do
  match ← rpc (.runScript .teardown [.int channel]) with
  | .ok released => pure (released.bool?.getD false)
  | .error _ => pure false

/-- Format a buffer before it is written, if it holds a file. -/
def beforeSave (rpc : Rpc m) (f : Formatter m) (buffer : Int) :
    ExceptT Failure m (Option SaveOutcome) := do
  match ← Document.ofNumber? rpc buffer with
  | some d => some <$> f.beforeSave (d.editor rpc)
  | none => pure none

/-- Let the write of a buffer proceed. -/
def releaseSave (rpc : Rpc m) (buffer : Int) : ExceptT Failure m Unit :=
  rpc.ask (some .releaseSave) (.runScript .releaseSave [.int buffer]) fun _ => some ()

/-- Handle an event. A write is let go also after a failure, and a failure to do so counts first. -/
def handle (rpc : Rpc m) (f : Formatter m) : Event → ExceptT Failure m Unit
  | .format range => do
    let d ← Document.active? rpc range
    f.command (d.map (·.editor rpc))
  | .willSave buffer => ExceptT.mk do
    let outcome ← (beforeSave rpc f buffer).run
    match ← (releaseSave rpc buffer).run with
    | .error failure => pure (.error failure)
    | .ok () => pure (outcome.map fun _ => ())
  | .detach => pure ()

/-- Handle notifications up to the one that detaches. -/
def serve (rpc : Rpc m) (f : Formatter m) : List Notification → m Unit
  | [] => pure ()
  | n :: rest =>
    match Event.ofNotification? n with
    | none => serve rpc f rest
    | some .detach => pure ()
    | some event => do
      let _ ← (handle rpc f event).run
      serve rpc f rest

/-- Serve an editor: register, handle its notifications, and give the registration back. -/
def run (rpc : Rpc m) (f : Formatter m) (notifications : List Notification) :
    ExceptT Failure m Unit := do
  let channel ← channel rpc
  register rpc channel
  ExceptT.lift (serve rpc f notifications)
  let _ ← ExceptT.lift (release rpc channel)

end Restyle.Neovim.Host
