import PortableLayout.FileSystem.Disk

/-!
# Editing a disk

The changes that other programs make to a directory tree: writing a file, making a link, removing
what is at a path. A file is written through links, also through one that leads nowhere yet; removing
takes a link itself and a directory with all that is in it.
-/

set_option autoImplicit false

namespace PortableLayout.Disk

/-- Writes `content` to the file that pieces taken from `p` lead to, made if it is missing. -/
def writeAt (d : Disk) (content : Bytes) (links : Nat) (p : Position) (todo : List Bytes) :
    Except Errno Disk :=
  match todo.reverse with
  | [] => .error .isADirectory
  | last :: before =>
    match follow d.top maxLinks p before.reverse with
    | .error e => .error e
    | .ok q =>
      if q.node.isDir = false then .error .notADirectory
      else if isSilent last ∨ last = [dot, dot] then .error .isADirectory
      else if maxNameBytes < last.length then .error .nameTooLong
      else
        match q.node.child? last with
        | some (.dir _) => .error .isADirectory
        | some (.link target) =>
          match links with
          | 0 => .error .linkLoop
          | links + 1 => d.writeAt content links (linkStart d.top target q) (pieces target)
        | some (.file _) => .ok (d.put q last (.file content))
        | none => .ok (d.put q last (.file content))

/-- Writes a whole file. -/
def writeFile (d : Disk) (p : Path) (content : Bytes) : Except IoError Disk :=
  match checkPath p with
  | .error e => .error e
  | .ok () =>
    match d.start p with
    | .error e => .error (.system e)
    | .ok q => (d.writeAt content maxLinks q (pieces p.bytes)).mapError .system

/-- Makes a symbolic link at `p` with a literal target. Only a directory is made at a path that ends
in a separator. -/
def makeLink (d : Disk) (p : Path) (target : Bytes) : Except IoError Disk :=
  match d.locateParent p with
  | .error e => .error e
  | .ok (q, last) =>
    if last = [dot] ∨ last = [dot, dot] then .error (.system .entryExists)
    else if maxNameBytes < last.length then .error (.system .nameTooLong)
    else
      match q.node.child? last with
      | some _ => .error (.system .entryExists)
      | none =>
        if p.bytes.getLast? = some slash then .error (.system .noEntry)
        else .ok (d.put q last (.link target))

/-- Removes what is at a path, a link itself and a directory with its content. -/
def remove (d : Disk) (p : Path) : Except IoError Disk :=
  match d.locateParent p with
  | .error e => .error e
  | .ok (q, last) =>
    match q.node.child? last with
    | none => .error (.system .noEntry)
    | some _ => .ok { d with top := Position.plug (q.node.eraseChild last) q.above }

end PortableLayout.Disk
