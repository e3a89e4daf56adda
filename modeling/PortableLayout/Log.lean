/-!
# Log events

What a run tells about itself. An event has a level, the part of the program that tells of it, and a
message with fields. A *threshold* decides by level and part which events are shown.
-/

set_option autoImplicit false

namespace PortableLayout.Log

/-- How much an event matters; the least verbose level first. -/
inductive Level where
  | error
  | warn
  | info
  | debug
  | trace
  deriving DecidableEq, Repr, Inhabited

namespace Level

/-- All levels, the least verbose first. -/
def all : List Level :=
  [error, warn, info, debug, trace]

/-- The word for a level in configuration files and filters. -/
def word : Level → String
  | error => "error"
  | warn => "warn"
  | info => "info"
  | debug => "debug"
  | trace => "trace"

/-- The position of a level, counted from 1 for errors. -/
def verbosity : Level → Nat
  | error => 1
  | warn => 2
  | info => 3
  | debug => 4
  | trace => 5

/-- The level that a word names; only the spelling in lower case is one. -/
def ofWord? (w : String) : Option Level :=
  all.find? (·.word == w)

/-- The word for a level names it. -/
theorem ofWord?_word (l : Level) : ofWord? l.word = some l := by
  cases l <;> decide

/-- A word that names a level is the word for it. -/
theorem word_of_ofWord? {w : String} {l : Level} (h : ofWord? w = some l) : l.word = w := by
  simpa using List.find?_some h

end Level

/-- The name of the program in its log; the parts of the program have names that begin with it. -/
def program : String := "portable_dirs"

/-- The part of the program that these names lead to. -/
def partOf (names : List String) : String :=
  "::".intercalate (program :: names)

/-- Something that happened, worth telling at a level. -/
structure Event where
  level : Level
  /-- The part of the program that tells of it. -/
  part : String
  message : String
  /-- What the message is about, each thing with its name. -/
  fields : List (String × String)
  deriving DecidableEq, Repr

/-- An event as a line of text, the level left out. -/
def Event.text (e : Event) : String :=
  e.part ++ ": " ++ e.message ++ String.join (e.fields.map fun f => " " ++ f.1 ++ "=" ++ f.2)

/-- Which events are shown, by level and by the part of the program that tells of them. -/
structure Threshold where
  shows (level : Level) (part : String := program) : Bool

namespace Threshold

/-- Shows the events of every part up to a level. -/
def upTo (most : Level) : Threshold where
  shows level _ := level.verbosity ≤ most.verbosity

end Threshold

end PortableLayout.Log
