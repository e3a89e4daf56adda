import PortableLayout.Log

/-!
# How much is logged

The filter of the environment comes first and is taken as it is; then the debug flag, then the level
of the configuration, and last the standard level. How the text of a filter is read is left open
(`FilterReader`).
-/

set_option autoImplicit false

namespace PortableLayout.CommandLine

/-- The environment variable that holds a filter. -/
def filterVariable : String := "RUST_LOG"

/-- The level when nothing sets one. -/
def standardLevel : Log.Level := .info

/-- The filter to use, or none where the one of the environment counts. -/
def directive (filterSet debug : Bool) (configured : Option String) : Option String :=
  if filterSet then none
  else if debug then some Log.Level.debug.word
  else some (configured.getD standardLevel.word)

/-- A way to read filters: what the text of one shows. -/
abbrev FilterReader := String → Log.Threshold

/-- What is shown, given the filter of the environment, the debug flag and the configured level. -/
def threshold (read : FilterReader) (filter : Option String) (debug : Bool)
    (configured : Option Log.Level) : Log.Threshold :=
  match directive filter.isSome debug (configured.map Log.Level.word) with
  | some d => read d
  | none => read (filter.getD "")

end PortableLayout.CommandLine
