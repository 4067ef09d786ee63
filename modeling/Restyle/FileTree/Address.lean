import Restyle.FileTree

/-!
# Addresses

Reaching an editor by the path of its socket.

An editor that can be attached to listens at a place in the file system, and its address is any path
that names the place. An address is a path of few bytes that ends before the first NUL, so what follows
one is ignored, though it counts towards the length. An address that starts with a NUL is no path but a
name of its own, outside the file system, and nobody listens there. An address that is too long, or
empty, is refused before it is looked up. A place where nobody listens refuses the connection, whatever
is there.

## Main definitions

* `FileTree.addressLimit`: The greatest length of an address.
* `FileTree.connect`: What comes of connecting to an address.
-/

namespace Restyle.FileTree

/-- The most bytes that an address can have. -/
def addressLimit : Nat := 107

/-- What comes of connecting to an address, if editors listen at some locations: the location that is
    connected to, or an error. -/
def connect (tree : FileTree) (listening : List Location) (address : Path) :
    Except FileError Location := do
  if address.text = [] ∨ addressLimit < address.text.byteLength then throw .invalidName
  let path := address.text.takeWhile (· ≠ Char.ofNat 0)
  if path = [] then throw .connectionRefused
  let (location, _) ← tree.find ⟨path⟩
  if location ∈ listening then pure location else throw .connectionRefused

end Restyle.FileTree
