import PortableLayout.Path
import PortableLayout.Role

/-!
# Command-line arguments

Options have a long name and most a short one. A value follows its option as the next argument or
directly, after a long name with a sign of equality and after a short one with or without it; short
flags can be put together. Roles and directories may be given any number of times, a flag once. What
cannot be read is refused at the first argument that shows it; a question for help or the version
answers as soon as it is met.
-/

set_option autoImplicit false

namespace PortableLayout.CommandLine

/-- What a run is asked to do. -/
structure Options where
  /-- The roles to report on; none means all. -/
  roles : List Role
  /-- The directories to make exist first. -/
  ensure : List Path
  json : Bool
  debug : Bool
  deriving DecidableEq, Repr

/-- The options of a run without arguments. -/
def Options.none : Options := ⟨[], [], false, false⟩

/-- What the arguments ask for. -/
inductive Request where
  | run (o : Options)
  /-- The help text, in full after the long flag. -/
  | help (full : Bool)
  | version
  | refused
  deriving DecidableEq, Repr

/-- The options that take a value. -/
inductive Valued where
  | role
  | ensure
  deriving DecidableEq, Repr

/-- The role that a word on the command line names. -/
def roleOf? (word : String) : Option Role :=
  if word = "roaming" then some .roamingData
  else if word = "personal" then some .personalData
  else if word = "cache" then some .cache
  else if word = "resources" then some .appResources
  else .none

/-- The options with one more value; an empty value is none, nor is a word that names no role. -/
def Options.give (o : Options) : Valued → List Char → Option Options
  | .role, value => (roleOf? (String.ofList value)).map fun r => { o with roles := o.roles ++ [r] }
  | .ensure, value =>
    if value = [] then .none
    else some { o with ensure := o.ensure ++ [.ofString (String.ofList value)] }

/-- What reading one argument leads to: more arguments, with an option still waiting for its value
or none, or an answer at once. -/
inductive Progress where
  | more (o : Options) (waiting : Option Valued)
  | answer (r : Request)

/-- Gives a value that stands with its option. -/
def Progress.given (o : Options) (v : Valued) (value : List Char) : Progress :=
  match o.give v value with
  | some o => .more o .none
  | .none => .answer .refused

/-- Reads the letters of short options. -/
def shortOptions (o : Options) : List Char → Progress
  | [] => .more o .none
  | c :: rest =>
    if c = 'r' ∨ c = 'e' then
      let v := if c = 'r' then Valued.role else Valued.ensure
      match rest with
      | [] => .more o (some v)
      | '=' :: value => .given o v value
      | value => .given o v value
    else if c = 'd' then
      if o.debug then .answer .refused else shortOptions { o with debug := true } rest
    else if c = 'h' then .answer (.help false)
    else if c = 'V' then .answer .version
    else .answer .refused

/-- Reads a long option, given its name and the value behind a sign of equality, if there is one. -/
def longOption (o : Options) (name : List Char) (value : Option (List Char)) : Progress :=
  let name := String.ofList name
  if name = "role" ∨ name = "ensure" then
    let v := if name = "role" then Valued.role else Valued.ensure
    match value with
    | .none => .more o (some v)
    | some value => .given o v value
  else if value.isSome then .answer .refused
  else if name = "json" then
    if o.json then .answer .refused else .more { o with json := true } .none
  else if name = "debug" then
    if o.debug then .answer .refused else .more { o with debug := true } .none
  else if name = "help" then .answer (.help true)
  else if name = "version" then .answer .version
  else .answer .refused

/-- Reads one argument; `waiting` is the option before it that has no value yet. -/
def argument (o : Options) (waiting : Option Valued) (arg : List Char) : Progress :=
  match arg with
  | '-' :: '-' :: long =>
    if waiting.isSome then .answer .refused
    else
      match long.dropWhile (· ≠ '=') with
      | [] => longOption o long .none
      | _ :: value => longOption o (long.takeWhile (· ≠ '=')) (some value)
  | '-' :: c :: short =>
    if waiting.isSome then .answer .refused else shortOptions o (c :: short)
  | value =>
    match waiting with
    | some v => .given o v value
    | .none => .answer .refused

/-- Reads the arguments one by one. After `--` there is nothing more to be said. -/
def readArguments (o : Options) (waiting : Option Valued) : List String → Request
  | [] => if waiting.isSome then .refused else .run o
  | arg :: rest =>
    if arg = "--" then
      if waiting.isSome ∨ rest ≠ [] then .refused else .run o
    else
      match argument o waiting arg.toList with
      | .answer r => r
      | .more o waiting => readArguments o waiting rest

/-- What the arguments of a program ask for. -/
def Request.ofArguments (args : List String) : Request :=
  readArguments .none .none args

end PortableLayout.CommandLine
