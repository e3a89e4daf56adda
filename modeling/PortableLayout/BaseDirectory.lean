import PortableLayout.FileSystem
import PortableLayout.Names

/-!
# The base directory

All redirected data lies in one directory beside the executable. It is made on first use as far as
possible: a failure is left for the walk that needs the directory to report.
-/

set_option autoImplicit false

namespace PortableLayout

variable {m : Type → Type} [Monad m]

/-- The directory that an executable lies in, unless its path is a bare name. -/
def parentDir (exe : Path) : Option Path :=
  exe.parent?.filter (·.bytes ≠ [])

/-- Where the base directory of an executable's directory is. -/
def basePath (exeDir : Path) : Path :=
  exeDir.join (.ofString Names.base)

/-- Nothing on the way to a path could be made. -/
def noTreeMade : IoError :=
  .described .other "failed to create whole tree"

/--
Makes the first directory of a list of ancestors, deepest first. Where its parent is missing the
parent is made first and the directory tried once more; a directory that is there already is success.
-/
def createFrom (host : Host m) : List Path → m (Except IoError Unit)
  | [] => pure (.error noTreeMade)
  | p :: parents => do
    if p.bytes = [] then
      return .ok ()
    match ← host.createDir p with
    | .ok () => return .ok ()
    | .error e =>
      if e.kind = .notFound then
        match ← createFrom host parents with
        | .error e => return .error e
        | .ok () =>
          match ← host.createDir p with
          | .ok () => return .ok ()
          | .error e => if ← host.isDir p then return .ok () else return .error e
      else if ← host.isDir p then return .ok ()
      else return .error e

/-- Makes a directory with all that is missing above it. -/
def createAll (host : Host m) (p : Path) : m (Except IoError Unit) :=
  createFrom host p.ancestors

/-- The base directory of an executable's directory, made if it is missing and can be made. -/
def resolveBase (host : Host m) (exeDir : Path) : m Path := do
  let base := basePath exeDir
  unless ← host.holds base do
    let _ ← createAll host base
  return base

end PortableLayout
