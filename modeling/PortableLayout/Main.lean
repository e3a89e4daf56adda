import PortableLayout.CommandLine.Run

/-!
# The command-line program

The outer layer: it asks the machine what the library wants to know, and prints what a run came to.
-/

set_option autoImplicit false

namespace PortableLayout.Program

/-- The number of a system error, if it has one. -/
def numberOf? : IO.Error → Option UInt32
  | .alreadyExists _ n _ => some n
  | .otherError n _ => some n
  | .resourceBusy n _ => some n
  | .resourceVanished n _ => some n
  | .unsupportedOperation n _ => some n
  | .hardwareFault n _ => some n
  | .unsatisfiedConstraints n _ => some n
  | .illegalOperation n _ => some n
  | .protocolError n _ => some n
  | .timeExpired n _ => some n
  | .interrupted _ n _ => some n
  | .noFileOrDirectory _ n _ => some n
  | .invalidArgument _ n _ => some n
  | .permissionDenied _ n _ => some n
  | .resourceExhausted _ n _ => some n
  | .inappropriateType _ n _ => some n
  | .noSuchThing _ n _ => some n
  | .unexpectedEof => none
  | .userError _ => none

/-- A system error in the library's terms. -/
def failureOf (e : IO.Error) : IoError :=
  match (numberOf? e).bind fun n => Errno.ofCode? n.toNat with
  | some n => .system n
  | none => .described .other (toString e)

/-- Does something with a path that the system's calls can be given. -/
def attempt {α : Type} (p : Path) (act : String → IO α) : IO (Except IoError α) := do
  if 0 ∈ p.bytes then
    return .error .nulByte
  match Text.Utf8.decode p.bytes with
  | none => return .error (.described .invalidInput (PathError.notUnicode p).message)
  | some s =>
    try
      return .ok (← act s)
    catch e =>
      return .error (failureOf e)

/-- Whether the system finds what a path names. Where nothing is found, opening it tells why. -/
def probe (p : Path) : IO (Except IoError Bool) := do
  match ← attempt p fun s => IO.FS.realPath s with
  | .ok _ => return .ok true
  | .error _ =>
    match ← attempt p fun s => IO.FS.Handle.mk s .read with
    | .ok _ => return .ok true
    | .error e => if e.kind = .notFound then return .ok false else return .error e

/-- Whether the system finds a directory at a path. -/
def isDir (p : Path) : IO Bool := do
  if p.bytes = [] then
    return false
  match ← probe ⟨p.bytes ++ [slash, dot]⟩ with
  | .ok found => return found
  | .error _ => return false

/-- The content of the file at a path. -/
def readFile (p : Path) : IO (Except IoError Bytes) :=
  attempt p fun s => do return (← IO.FS.readBinFile s).toList

/-- The machine that the program runs on. -/
def machine : Host IO where
  probe := probe
  createDir p := attempt p fun s => IO.FS.createDir s
  isDir := isDir
  fileSize p := do
    if ← isDir p then return .ok 0
    return (← readFile p).map List.length
  readFile := readFile

/-- An environment variable as bytes. -/
def environmentBytes (name : String) : IO (Option Bytes) := do
  return (← IO.getEnv name).map Text.Utf8.encode

/-- The directory of the running executable, or the working directory if it has none. -/
def executableDir : IO Path := do
  let exe := Path.ofString (toString (← IO.appPath))
  return (parentDir exe).getD (.ofString ".")

/-- Carries out a run and answers with its exit code. -/
def execute (o : CommandLine.Options) : IO UInt32 := do
  let env : CommandLine.Environment := {
    packaging := {
      appImage := ← environmentBytes Names.appImageVariable
      appDir := ← environmentBytes Names.appDirVariable }
    filter := ← environmentBytes CommandLine.filterVariable }
  let outcome ← CommandLine.run machine env (← executableDir) o
  for e in outcome.shownEvents do
    IO.eprintln (e.level.word.toUpper ++ " " ++ e.text)
  IO.print outcome.stdout
  if let some line := outcome.errorLine then
    IO.eprintln line
  return outcome.exitCode.toUInt32

end PortableLayout.Program

open PortableLayout in
/-- Reads the arguments and does what they ask for. -/
def main (args : List String) : IO UInt32 := do
  match CommandLine.Request.ofArguments args with
  | .run o => Program.execute o
  | .help full =>
    IO.print (if full then CommandLine.fullHelp else CommandLine.shortHelp)
    return 0
  | .version =>
    IO.print CommandLine.versionText
    return 0
  | .refused =>
    IO.eprintln "error: the arguments cannot be used"
    IO.eprint "\nUsage: portable-dirs [OPTIONS]\n\nFor more information, try '--help'.\n"
    return 2
