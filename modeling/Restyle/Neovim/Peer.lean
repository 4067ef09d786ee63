import Restyle.Neovim.Request

/-!
# Scripted Peers

The other end of a connection, played from a list of answers.

A peer answers the requests it gets, whatever they are, with the answers it holds, in order, and
remembers the requests. When it has none left it refuses. This is enough to say what any sequence of
answers leads to.

## Main definitions

* `Peer`: The answers left and the requests so far.
* `Peer.rpc`: Asking a peer.
-/

namespace Restyle.Neovim

/-- The answers that are left, and the requests so far, newest first. -/
structure Peer where
  replies : List (Except RpcError Value)
  asked : List Request := []

namespace Peer

/-- The refusal of a peer that has no answer left. -/
def silent : RpcError :=
  .other "no reply scripted".toList

/-- The requests so far, in order. -/
def requests (p : Peer) : List Request :=
  p.asked.reverse

/-- Answer a request. -/
def reply (p : Peer) (r : Request) : Except RpcError Value × Peer :=
  match p.replies with
  | [] => (.error silent, { p with asked := r :: p.asked })
  | answer :: rest => (answer, { replies := rest, asked := r :: p.asked })

/-- Asking a peer. -/
def rpc {m : Type → Type} [Monad m] : Rpc (StateT Peer m) :=
  fun r => modifyGet (·.reply r)

end Peer

end Restyle.Neovim
