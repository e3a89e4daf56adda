import PortableLayout.FileSystem
import PortableLayout.Log
import PortableLayout.Text.LowerCase

/-!
# Configuration

The configuration is a document in the roaming directory with two values: how verbose the log is and
in which form the report is printed. A file that is not there is the first run and means the default
configuration. A file that cannot be used means the default configuration and one warning; a value
that cannot be used is warned of and left out, and the other value counts. How the text of a document
is read is left open (`Settings.Reader`).
-/

set_option autoImplicit false

namespace PortableLayout

/-- The form in which the report is printed. -/
inductive Format where
  | text
  | json
  deriving DecidableEq, Repr, Inhabited

/-- A validated configuration. -/
structure Config where
  logLevel : Option Log.Level
  format : Format
  deriving DecidableEq, Repr

/-- The two values as they stand in a configuration file. -/
structure Settings where
  level : Option String
  format : Option String
  deriving DecidableEq, Repr

/-- Something about the configuration that the user should know. -/
inductive Warning where
  /-- The file cannot be used. -/
  | unusable (error : ConfigError)
  /-- One of its values cannot be used. -/
  | rejected (error : ConfigError)
  /-- There is no directory to look for the file in. -/
  | noDirectory (error : PathError)
  deriving DecidableEq, Repr

/-- The sentence for a warning. -/
def Warning.message : Warning → String
  | unusable error => error.message ++ ". Using defaults."
  | rejected error => error.message
  | noDirectory error =>
    "Roaming data directory unavailable, config not loaded: " ++ error.message

namespace Settings

/-- A way to read documents: the values that a text gives, or what is wrong with the text. -/
abbrev Reader := String → Except String Settings

/-- The level that a word names, in any mixture of capital and small letters. -/
def levelOf? (word : String) : Option Log.Level :=
  Log.Level.ofWord? (Text.LowerCase.lower word)

/-- The form that a word names, in any mixture of capital and small letters. -/
def formatOf? (word : String) : Option Format :=
  let w := Text.LowerCase.lower word
  if w = "text" then some .text
  else if w = "json" then some .json
  else none

/-- What is said of a level that is none. -/
def badLevel (value : String) : ConfigError :=
  .outOfRange "[logging] level" value
    ("one of " ++ ", ".intercalate (Log.Level.all.map Log.Level.word) ++
      "; using default (" ++ Log.Level.info.word ++ ")")

/-- What is said of a form that is none. -/
def badFormat (value : String) : ConfigError :=
  .outOfRange "[report] format" value "\"text\" or \"json\"; using default (text)"

/-- The configuration that the values give, and the values that cannot be used. -/
def validate (s : Settings) : Config × List ConfigError :=
  let level := s.level.bind levelOf?
  let format := s.format.bind formatOf?
  (⟨level, format.getD .text⟩,
    (match s.level, level with
      | some value, none => [badLevel value]
      | _, _ => []) ++
    (match s.format, format with
      | some value, none => [badFormat value]
      | _, _ => []))

end Settings

namespace Config

/-- The name of the configuration file. -/
def fileName : String := "portable-dirs.toml"

/-- The bytes of the largest file that is read. -/
def maxFileBytes : Nat := 64 * 1024

/-- The configuration without a file. -/
def standard : Config := ⟨none, .text⟩

variable {m : Type → Type} [Monad m]

/-- The values of the configuration file at a path, by a way to read documents. -/
def readSettings (read : Settings.Reader) (host : Host m) (path : Path) : m (Except ConfigError Settings) := do
  match ← host.fileSize path with
  | .error e => return .error (.unreadable path e)
  | .ok size =>
    if maxFileBytes < size then
      return .error (.tooLarge path size maxFileBytes)
    match ← host.readFile path with
    | .error e => return .error (.unreadable path e)
    | .ok content =>
      match Text.Utf8.decode content with
      | none => return .error (.unreadable path .notUtf8)
      | some text =>
        match read text with
        | .error detail => return .error (.malformed path detail)
        | .ok settings => return .ok settings

/-- Where the configuration file of a directory is. -/
def filePath (dir : Path) : Path :=
  dir.join (.ofString fileName)

/-- The configuration in a directory, with the warnings about it, by a way to read documents. -/
def loadWith (read : Settings.Reader) (host : Host m) (dir : Path) : m (Config × List Warning) := do
  let path := filePath dir
  if ← host.holds path then
    match ← readSettings read host path with
    | .error e => return (standard, [.unusable e])
    | .ok settings =>
      let (config, errors) := settings.validate
      return (config, errors.map .rejected)
  else
    return (standard, [])

end Config

end PortableLayout
