import PortableLayout.BaseDirectory
import PortableLayout.Resolve

/-!
# The directories of a running process

A process knows the directory of its executable. Its base directory is found, and made if possible,
when it is first needed, and only remembered from then on; the environment is looked at anew each
time.
-/

set_option autoImplicit false

namespace PortableLayout

/-- What a process remembers about its directories. -/
structure Session where
  exeDir : Path
  base? : Option Path
  deriving DecidableEq, Repr

namespace Session

variable {m : Type → Type} [Monad m]

/-- A process that has not needed its base directory yet. -/
def begin (exeDir : Path) : Session := ⟨exeDir, none⟩

/-- The base directory, and the process that remembers it. -/
def base (host : Host m) (s : Session) : m (Path × Session) := do
  match s.base? with
  | some base => return (base, s)
  | none =>
    let base ← resolveBase host s.exeDir
    return (base, { s with base? := some base })

/-- The table of the process in an environment. -/
def table (host : Host m) (env : Packaging) (s : Session) : m (Table × Session) := do
  let (base, s) ← s.base host
  return (.unix (.ofPackaging base s.exeDir env), s)

/-- Resolves a role in an environment. -/
def resolve (host : Host m) (env : Packaging) (role : Role) (s : Session) :
    m (Attempt × Session) := do
  let (t, s) ← s.table host env
  let a ← PortableLayout.resolve host.holds host.toFileSystem t role
  return (a, s)

end Session

end PortableLayout
