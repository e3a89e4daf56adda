import PortableLayout.Log

/-!
# Log filters

A filter is a list of directives with commas between them. A directive is a limit for all events, or
for those of the parts of the program whose names begin with its target; a target without a limit
has no limit. A limit is a level, by its name in letters of any case or by its number, or nothing at
all. Of the directives for a part the one with the longest target counts, and of several with the same
target the last. What is no directive is passed over; a filter without directives leaves errors.
-/

set_option autoImplicit false

namespace PortableLayout.Log

/-- How much is shown of the parts whose names begin with a target. -/
structure Directive where
  target : String
  /-- The most verbose level that is shown; none if nothing is. -/
  limit : Option Level
  deriving DecidableEq, Repr

namespace Directive

/-- The limit that a word names. -/
def limitOf? (word : String) : Option (Option Level) :=
  let w := word.toLower
  if w = "off" ∨ w = "0" then some none
  else (Level.all.find? fun l => l.word == w || toString l.verbosity == w).map some

/-- Whether a character can stand in a target. -/
def isTargetChar (c : Char) : Bool :=
  c.isAlphanum || c == '_' || c == ':' || c == '-'

/-- Reads a directive. -/
def ofText? (text : String) : Option Directive :=
  match limitOf? text with
  | some limit => some ⟨"", limit⟩
  | none =>
    let target := text.toList.takeWhile isTargetChar
    if target = [] then none
    else
      match text.toList.drop target.length with
      | [] => some ⟨String.ofList target, some .trace⟩
      | ['='] => some ⟨String.ofList target, some .trace⟩
      | '=' :: limit => (limitOf? (String.ofList limit)).map (⟨String.ofList target, ·⟩)
      | _ => none

/-- Whether a directive is about a part of the program. -/
def covers (d : Directive) (part : String) : Bool :=
  d.target.toList.isPrefixOf part.toList

/-- The one of two directives that counts where both cover a part; `d` stands behind `best`. -/
def better (best : Option Directive) (d : Directive) : Option Directive :=
  match best with
  | none => some d
  | some b => if d.target.length < b.target.length then some b else some d

/-- The directive that counts for a part of the program. -/
def deciding? (ds : List Directive) (part : String) : Option Directive :=
  (ds.filter (·.covers part)).foldl better none

end Directive

/-- What directives show. -/
def Threshold.ofDirectives (ds : List Directive) : Threshold where
  shows level part :=
    match (Directive.deciding? ds part).bind Directive.limit with
    | some most => level.verbosity ≤ most.verbosity
    | none => false

/-- Reads a filter. -/
def Threshold.ofFilter (filter : String) : Threshold :=
  match (filter.splitOn ",").filterMap Directive.ofText? with
  | [] => upTo .error
  | ds => ofDirectives ds

end PortableLayout.Log
