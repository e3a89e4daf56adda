import PortableLayout.Report

/-!
# The report as text

One line for the executable's directory, one for the base directory and one per entry. A label
fills sixteen columns; what follows it is the path, with a mark if the directory was not created, or
the error.
-/

set_option autoImplicit false

namespace PortableLayout

namespace Report

/-- The columns that a label fills. -/
def labelWidth : Nat := 16

/-- A label filled up with blanks. -/
def label (s : String) : String :=
  s ++ String.ofList (List.replicate (labelWidth - s.length) ' ')

/-- One line: a label, what it labels, and the line end. -/
def line (name content : String) : String :=
  label name ++ content ++ "\n"

end Report

/-- What an entry says after its label; nothing if it has neither a path nor an error. -/
def Entry.content? (e : Entry) : Option String :=
  match e.path, e.error with
  | some path, _ => some (path ++ if e.ensured then "" else " (not created)")
  | none, some error => some ("error: " ++ error)
  | none, none => none

/-- The line for an entry. -/
def Entry.textLine (e : Entry) : String :=
  match e.content? with
  | some content => Report.line e.role.name content
  | none => ""

/-- The whole report as text. -/
def Report.toText (r : Report) : String :=
  line "executable" r.executableDir ++ line "base" r.baseDir ++
    String.join (r.entries.map Entry.textLine)

end PortableLayout
