import PortableLayout.Config
import PortableLayout.Toml.Document

/-!
# Configuration documents

A configuration document is a TOML text with a section for the log and one for the report, each with
one value that a run looks at. A document may have other sections and keys; a section or a value of
another kind makes the whole document unusable.
-/

set_option autoImplicit false

namespace PortableLayout

namespace Settings

/-- The text that a key of a section stands for; any other kind of value is refused. -/
def textOf? : Option Toml.Item → Option (Option String)
  | none => some none
  | some (.text s) => some (some s)
  | some _ => none

/--
The one value of a section. A section may also be an array, which is read by position, and a date
counts as a section without entries; any other kind of value is refused.
-/
def sectionValue? (key : String) : Option Toml.Item → Option (Option String)
  | none => some none
  | some (.table t) => textOf? (t.find? key)
  | some (.inlineTable entries) => textOf? (entries.lookup key)
  | some (.array items) => textOf? items.head?
  | some .moment => some none
  | some _ => none

/-- The values of a document; entries that are not known are passed over. -/
def ofTable? (t : Toml.Table) : Option Settings := do
  let level ← sectionValue? "level" (t.find? "logging")
  let format ← sectionValue? "format" (t.find? "report")
  return ⟨level, format⟩

/-- What is said of a text that is no configuration document. -/
def malformedDetail : String := "not a well-formed configuration document"

/-- Reads a configuration document. -/
def ofText : Reader := fun text =>
  match (Toml.read text).bind ofTable? with
  | some settings => .ok settings
  | none => .error malformedDetail

end Settings

/-- The configuration in a directory, with the warnings about it. -/
def Config.load {m : Type → Type} [Monad m] (host : Host m) (dir : Path) :
    m (Config × List Warning) :=
  loadWith Settings.ofText host dir

end PortableLayout
