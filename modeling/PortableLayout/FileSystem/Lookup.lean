import PortableLayout.FileSystem.Tree
import PortableLayout.IoError

/-!
# Looking a path up in a tree

The pieces of a path are taken one after the other from a starting position. Silent pieces stay where
they are and `..` goes up, both only in a directory; a name leads to the entry it stands for. A link
is replaced by the pieces of its target: an absolute target starts at the top again, any other at the
directory of the link. One lookup follows forty links and no more, which is what ends it on a loop.
-/

set_option autoImplicit false

namespace PortableLayout

/-- The links that one lookup follows. -/
def maxLinks : Nat := 40

/-- The bytes of the longest name. -/
def maxNameBytes : Nat := 255

/-- How far a lookup gets without following a link. -/
inductive Stride where
  /-- All pieces are used up. -/
  | arrived (p : Position)
  | failed (e : Errno)
  /-- A link to `target` is met in the directory at `p`, with pieces left. -/
  | met (target : Bytes) (p : Position) (rest : List Bytes)

/-- Takes pieces from a position until they are used up or a link is met. -/
def stride (p : Position) : List Bytes → Stride
  | [] => .arrived p
  | piece :: rest =>
    if p.node.isDir = false then .failed .notADirectory
    else if isSilent piece then stride p rest
    else if piece = [dot, dot] then stride p.up rest
    else if maxNameBytes < piece.length then .failed .nameTooLong
    else
      match p.node.child? piece with
      | none => .failed .noEntry
      | some (.link target) => .met target p rest
      | some (.dir entries) => stride (p.down piece (.dir entries)) rest
      | some (.file content) => stride (p.down piece (.file content)) rest

/-- Where a link met at `p` starts: at the top if its target is absolute. -/
def linkStart (top : Node) (target : Bytes) (p : Position) : Position :=
  if target.head? = some slash then .top top else p

/-- Takes pieces from a position and follows at most `links` links on the way. -/
def follow (top : Node) (links : Nat) (p : Position) (todo : List Bytes) :
    Except Errno Position :=
  match stride p todo with
  | .arrived q => .ok q
  | .failed e => .error e
  | .met target q rest =>
    match links with
    | 0 => .error .linkLoop
    | links + 1 =>
      if target = [] then .error .noEntry
      else follow top links (linkStart top target q) (pieces target ++ rest)

end PortableLayout
