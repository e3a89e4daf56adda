import PortableLayout.Ensure
import PortableLayout.Table

/-!
# Resolving a role

The directory of a role is looked up in a table and, for the roles that hold the application's own
data, made to exist before its path is handed out.
-/

set_option autoImplicit false

namespace PortableLayout

/-- The directory of a role. -/
structure Resolved where
  role : Role
  path : Path
  /-- Whether the directory was made to exist. -/
  ensured : Bool
  deriving DecidableEq, Repr

/-- What resolving a role came to, the exchanges with the file system on the way, and what the lookup
in the table is worth telling. -/
structure Attempt extends Recorded (Except PathError Resolved) where
  lookEvents : List Log.Event

variable {m : Type → Type} [Monad m]

/-- Resolves a role through a table; `look` is how the table looks at the disk. -/
def resolve (look : Path → m Bool) (fs : FileSystem m) (t : Table) (role : Role) : m Attempt := do
  let (found, looks) ← (t.dirFor (noting look) role).run []
  let told := t.lookEvents looks
  match found with
  | none => return ⟨⟨.error (.unsupported role.name), []⟩, told⟩
  | some path =>
    if role.isEnsured then
      let walk ← (ensure path).record fs
      return ⟨⟨walk.result.map fun _ => ⟨role, path, true⟩, walk.exchanges⟩, told⟩
    else
      return ⟨⟨.ok ⟨role, path, false⟩, []⟩, told⟩

/-- What a resolved role is worth telling. -/
def Resolved.event (r : Resolved) : Log.Event where
  level := .debug
  part := Log.partOf ["app", "paths"]
  message := "Path resolved"
  fields := [("role", r.role.name), ("path", r.path.display), ("ensured", toString r.ensured)]

/-- What an attempt is worth telling. -/
def Attempt.events (a : Attempt) : List Log.Event :=
  a.lookEvents ++ a.exchanges.filterMap Exchange.event? ++
    match a.result with
    | .ok r => [r.event]
    | .error _ => []

end PortableLayout
