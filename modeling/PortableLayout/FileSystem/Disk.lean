import PortableLayout.FileSystem
import PortableLayout.FileSystem.Lookup

/-!
# A disk: a directory tree with a working directory

The calls of an operating system on a directory tree. A path is looked up from the top if it is
absolute and from the working directory otherwise; an empty path, one with a NUL byte and one of more
than 4095 bytes fail before the tree is looked at.

`locate` follows every link. Making a directory follows the links of all pieces but the last one: a
last piece that is there already, whatever it is, or that is `.` or `..`, cannot be made again.
-/

set_option autoImplicit false

namespace PortableLayout

/-- A directory tree and the location of the working directory. -/
structure Disk where
  top : Node
  cwd : List Bytes
  /-- The number of bytes that the directory at a place is itself said to have. -/
  dirBytes : Position → Nat := fun _ => 4096
  deriving Inhabited

/-- The bytes of the longest path. -/
def maxPathBytes : Nat := 4095

namespace Disk

/-- The disk with this tree and the working directory at its top. -/
def ofTree (t : Node) : Disk where
  top := t
  cwd := []

/-- The paths that a call accepts. -/
def checkPath (p : Path) : Except IoError Unit :=
  if 0 ∈ p.bytes then .error .nulByte
  else if p.bytes = [] then .error (.system .noEntry)
  else if maxPathBytes < p.bytes.length then .error (.system .nameTooLong)
  else .ok ()

/-- Where the lookup of a path starts. -/
def start (d : Disk) (p : Path) : Except Errno Position :=
  if p.isAbsolute then .ok (.top d.top)
  else
    match (Position.top d.top).find? d.cwd with
    | some q => .ok q
    | none => .error .noEntry

/-- Takes pieces from the place where the lookup of `p` starts, links followed. -/
def lookupPieces (d : Disk) (p : Path) (todo : List Bytes) : Except Errno Position :=
  match d.start p with
  | .error e => .error e
  | .ok q => follow d.top maxLinks q todo

/-- The node that a path leads to, all links followed. -/
def locate (d : Disk) (p : Path) : Except IoError Position :=
  match checkPath p with
  | .error e => .error e
  | .ok () => (d.lookupPieces p (pieces p.bytes)).mapError .system

/-- Whether there is something at a path. A lookup that fails for want of an entry says no. -/
def probe (d : Disk) (p : Path) : Except IoError Bool :=
  match d.locate p with
  | .ok _ => .ok true
  | .error e => if e.kind = .notFound then .ok false else .error e

/-- Whether there is a directory at a path. -/
def isDir (d : Disk) (p : Path) : Bool :=
  match d.locate p with
  | .ok q => q.node.isDir
  | .error _ => false

/-- The size of what is at a place. -/
def sizeAt (d : Disk) (q : Position) : Nat :=
  match q.node with
  | .file content => content.length
  | _ => d.dirBytes q

/-- The size of what is at a path. -/
def fileSize (d : Disk) (p : Path) : Except IoError Nat :=
  match d.locate p with
  | .error e => .error e
  | .ok q => .ok (d.sizeAt q)

/-- The content of the file at a path. -/
def readFile (d : Disk) (p : Path) : Except IoError Bytes :=
  match d.locate p with
  | .error e => .error e
  | .ok q =>
    match q.node with
    | .file content => .ok content
    | _ => .error (.system .isADirectory)

/-- The last piece of a byte string, trailing separators left out, and the pieces before it. -/
def splitLast (bytes : Bytes) : Option (List Bytes × Bytes) :=
  match (pieces bytes).reverse.dropWhile (· == []) with
  | [] => none
  | last :: before => some (before.reverse, last)

/-- The directory that a path's last piece is in, all links before it followed, and that piece. -/
def locateParent (d : Disk) (p : Path) : Except IoError (Position × Bytes) :=
  match checkPath p with
  | .error e => .error e
  | .ok () =>
    match splitLast p.bytes with
    | none => .error (.system .entryExists)
    | some (before, last) =>
      match d.lookupPieces p before with
      | .error e => .error (.system e)
      | .ok q => if q.node.isDir then .ok (q, last) else .error (.system .notADirectory)

/-- The disk with an entry of the directory at `q` set to a node. -/
def put (d : Disk) (q : Position) (name : Bytes) (node : Node) : Disk :=
  { d with top := (q.down name node).rebuild }

/-- Makes a directory whose parent is there. -/
def makeDir (d : Disk) (p : Path) : Except IoError Disk :=
  match d.locateParent p with
  | .error e => .error e
  | .ok (q, last) =>
    if last = [dot] ∨ last = [dot, dot] then .error (.system .entryExists)
    else if maxNameBytes < last.length then .error (.system .nameTooLong)
    else
      match q.node.child? last with
      | some _ => .error (.system .entryExists)
      | none => .ok (d.put q last .emptyDir)

/-- The outcome of making a directory and the disk after it. -/
def createDir (d : Disk) (p : Path) : Except IoError Unit × Disk :=
  match d.makeDir p with
  | .ok after => (.ok (), after)
  | .error e => (.error e, d)

/-- The disk as the host of a program. -/
def host : Host (StateM Disk) where
  probe p := do return (← get).probe p
  createDir p := modifyGet fun d => d.createDir p
  isDir p := do return (← get).isDir p
  fileSize p := do return (← get).fileSize p
  readFile p := do return (← get).readFile p

/-- The disk as a file system. -/
abbrev fileSystem : FileSystem (StateM Disk) :=
  host.toFileSystem

end Disk

end PortableLayout
