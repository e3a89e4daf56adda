import PortableLayout.IoError
import PortableLayout.Path

/-!
# Failures

What can go wrong with a path or with the configuration, each with the sentence that a user is
shown. A failure may rest on another one; `chain` lists the texts from the failure's immediate cause
down to the last one.
-/

set_option autoImplicit false

namespace PortableLayout

/-- A directory could not be made available. -/
inductive PathError where
  /-- It cannot be told whether `path` exists. -/
  | unverifiable (path : Path) (cause : IoError)
  /-- The missing segment `path` cannot be created. -/
  | createDir (path : Path) (cause : IoError)
  /-- The layout has no place for a role, given by its name. -/
  | unsupported (role : String)
  /-- The bytes of `path` are no UTF-8. -/
  | notUnicode (path : Path)
  deriving DecidableEq, Repr

/-- The sentence for a path error. -/
def PathError.message : PathError → String
  | unverifiable path cause =>
    "Couldn't ensure that '" ++ path.display ++ "' exists: existence check failed: " ++
      cause.message
  | createDir path cause =>
    "Failed to create directory '" ++ path.display ++ "': " ++ cause.message
  | unsupported role => "The " ++ role ++ " directory is not available on this platform"
  | notUnicode path =>
    "Path '" ++ path.display ++ "' is not valid Unicode and cannot be converted to UTF-8"

/-- The texts of what a path error rests on. -/
def PathError.chain : PathError → List String
  | unverifiable _ cause => [cause.message]
  | createDir _ cause => [cause.message]
  | unsupported _ => []
  | notUnicode _ => []

/-- The configuration file cannot be used, or one of its values cannot. -/
inductive ConfigError where
  /-- The text of the file is no TOML; `detail` says why. -/
  | malformed (path : Path) (detail : String)
  /-- The file has `size` bytes, more than the `limit`. -/
  | tooLarge (path : Path) (size limit : Nat)
  /-- The value given for `field` is not one of those `expected`. -/
  | outOfRange (field value expected : String)
  /-- The file cannot be read. -/
  | unreadable (path : Path) (cause : IoError)
  deriving DecidableEq, Repr

/-- The sentence for a configuration error. -/
def ConfigError.message : ConfigError → String
  | malformed path detail => "Config parse error '" ++ path.display ++ "': " ++ detail
  | tooLarge path size limit =>
    "Config '" ++ path.display ++ "' is " ++ toString size ++ " bytes, exceeds maximum of " ++
      toString limit ++ " bytes"
  | outOfRange field value expected =>
    "Config '" ++ field ++ "' = '" ++ value ++ "' is out of range. Expected: " ++ expected
  | unreadable path cause => "Config I/O error '" ++ path.display ++ "': " ++ cause.message

/-- The texts of what a configuration error rests on. -/
def ConfigError.chain : ConfigError → List String
  | malformed _ detail => [detail]
  | tooLarge .. => []
  | outOfRange .. => []
  | unreadable _ cause => [cause.message]

/-- Any failure that ends a run. -/
inductive Failure where
  | path (error : PathError)
  | config (error : ConfigError)
  /-- Doing `operation` on `file` failed. -/
  | io (file : Path) (operation : String) (cause : IoError)
  deriving DecidableEq, Repr

/-- The sentence for a failure. -/
def Failure.message : Failure → String
  | path error => "Path error: " ++ error.message
  | config error => "Configuration error: " ++ error.message
  | io file operation cause =>
    "I/O error during " ++ operation ++ " on '" ++ file.display ++ "': " ++ cause.message

/-- The texts of what a failure rests on. -/
def Failure.chain : Failure → List String
  | path error => error.message :: error.chain
  | config error => error.message :: error.chain
  | io _ _ cause => [cause.message]

end PortableLayout
