import PortableLayout.Resolve
import PortableLayout.Text.Native

/-!
# The report

One entry per requested role, in the order asked for: the path of its directory, or why there is
none. Paths are reported as text; a path that is no UTF-8 is shown lossily.
-/

set_option autoImplicit false

namespace PortableLayout

/-- The text of a path whose bytes are UTF-8; any other path is refused, never altered. -/
def Path.toText (p : Path) : Except PathError String :=
  match Text.ofNarrow p.bytes with
  | .ok s => .ok s
  | .error _ => .error (.notUnicode p)

/-- The text that a report shows for a path. -/
def Path.reported (p : Path) : String :=
  match p.toText with
  | .ok s => s
  | .error _ => p.display

/-- The outcome for one role. -/
structure Entry where
  role : Role
  path : Option String
  ensured : Bool
  error : Option String
  deriving DecidableEq, Repr

/-- What is known about the directories of one executable. -/
structure Report where
  executableDir : String
  baseDir : String
  entries : List Entry
  deriving DecidableEq, Repr

/-- The entry for what resolving a role came to. -/
def Entry.ofResult (role : Role) : Except PathError Resolved → Entry
  | .ok r => ⟨role, some r.path.reported, r.ensured, none⟩
  | .error e => ⟨role, none, false, some e.message⟩

/-- The part of the program that reports. -/
def reportPart : String :=
  Log.partOf ["app", "report"]

/-- What reporting a path is worth telling: that its bytes are no UTF-8. -/
def Path.reportEvents (p : Path) : List Log.Event :=
  match p.toText with
  | .ok _ => []
  | .error e => [⟨.warn, reportPart, "Reporting path lossily", [("error", e.message)]⟩]

/-- What the entry for an attempt is worth telling. -/
def Entry.events (role : Role) (a : Attempt) : List Log.Event :=
  a.events ++
    match a.result with
    | .ok r => r.path.reportEvents
    | .error e =>
      [⟨.warn, reportPart, "Role could not be resolved", [("role", role.name), ("error", e.message)]⟩]

namespace Report

/-- Whether some role has no directory. -/
def hasErrors (r : Report) : Bool :=
  r.entries.any (·.error.isSome)

variable {m : Type → Type} [Monad m]

/-- Resolves the roles one after the other and keeps every attempt. -/
def attempts (look : Path → m Bool) (fs : FileSystem m) (t : Table) :
    List Role → m (List (Role × Attempt))
  | [] => pure []
  | role :: roles => do
    let a ← resolve look fs t role
    let later ← attempts look fs t roles
    return (role, a) :: later

/-- The report on these attempts. -/
def ofAttempts (exeDir baseDir : Path) (tries : List (Role × Attempt)) : Report where
  executableDir := exeDir.reported
  baseDir := baseDir.reported
  entries := tries.map fun t => .ofResult t.1 t.2.result

/-- What a report on these attempts is worth telling. -/
def events (exeDir baseDir : Path) (tries : List (Role × Attempt)) : List Log.Event :=
  tries.flatMap (fun t => Entry.events t.1 t.2) ++ exeDir.reportEvents ++ baseDir.reportEvents

/-- Resolves the roles through a table and reports on them. -/
def build (look : Path → m Bool) (fs : FileSystem m) (t : Table) (roles : List Role)
    (exeDir baseDir : Path) : m Report := do
  return ofAttempts exeDir baseDir (← attempts look fs t roles)

end Report

end PortableLayout
