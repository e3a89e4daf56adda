import PortableLayout.BaseDirectory
import PortableLayout.CommandLine.Arguments
import PortableLayout.CommandLine.Help
import PortableLayout.CommandLine.Logging
import PortableLayout.Config
import PortableLayout.Report.Json
import PortableLayout.Report.Text

/-!
# A run of the program

The roaming directory is resolved first, because the configuration lies in it; without it the
standard configuration is used. Then the requested directories are made to exist in the order given,
and the first failure ends the run. Last comes the report, and the run succeeds if every role in it
has a directory. How configuration documents and log filters are read is left open (`Readers`).
-/

set_option autoImplicit false

namespace PortableLayout.CommandLine

/-- The ways to read what others have written: configuration documents and log filters. -/
structure Readers where
  settings : Settings.Reader
  filter : FilterReader

/-- The environment of a run. -/
structure Environment where
  packaging : Packaging
  /-- The log filter; one that is no UTF-8 counts as missing. -/
  filter : Option Bytes
  deriving DecidableEq, Repr, Inhabited

/-- What a run leaves behind, the changes on the host apart. -/
structure Outcome where
  exitCode : Nat
  stdout : String
  /-- What ended the run early. -/
  failure : Option Failure
  /-- What is to be said about the configuration. -/
  warnings : List Warning
  /-- The report that was printed. -/
  report : Option Report
  /-- The events since logging began, in order. -/
  events : List Log.Event
  /-- Which of the events are shown. -/
  threshold : Log.Threshold

/-- The line for a failure on standard error. -/
def Outcome.errorLine (o : Outcome) : Option String :=
  o.failure.map fun f => "Error: " ++ f.message

/-- The events that are shown. -/
def Outcome.shownEvents (o : Outcome) : List Log.Event :=
  o.events.filter fun e => o.threshold.shows e.level e.part

variable {m : Type → Type} [Monad m]

/-- What making directories exist came to. -/
structure Ensured where
  failure : Option PathError
  events : List Log.Event

/-- Makes directories exist, one after the other, up to the first that cannot be made. -/
def ensureAll (fs : FileSystem m) : List Path → m Ensured
  | [] => return ⟨.none, []⟩
  | p :: rest => do
    let walk ← (ensure p).record fs
    let told := walk.exchanges.filterMap Exchange.event?
    match walk.result with
    | .error e => return ⟨some e, told⟩
    | .ok _ =>
      let later ← ensureAll fs rest
      let done : Log.Event := ⟨.info, Log.program, "Directory ensured", [("path", p.display)]⟩
      return ⟨later.failure, told ++ done :: later.events⟩

/-- The configuration of a run and the warnings about it, given how the roaming role resolved. -/
def configure (read : Settings.Reader) (host : Host m) (roaming : Except PathError Resolved) :
    m (Config × List Warning) :=
  match roaming with
  | .ok r => Config.loadWith read host r.path
  | .error e => pure (Config.standard, [.noDirectory e])

/-- The events with which logging begins. -/
def openingEvents (debug : Bool) (warnings : List Warning) : List Log.Event :=
  let version := "\"" ++ programVersion ++ "\""
  [⟨.debug, Log.partOf ["util", "logging"], "Logging initialised",
      [("app", "\"" ++ programName ++ "\""), ("version", version)]⟩,
    ⟨.info, Log.program, "portable-dirs starting", [("version", version), ("debug", toString debug)]⟩] ++
    warnings.map fun w => ⟨.warn, Log.program, "Config warning", [("warning", w.message)]⟩

/-- The event with which a run ends early. -/
def failureEvent (failure : Failure) : Log.Event :=
  ⟨.error, Log.program, "portable-dirs failed", [("error", failure.message)]⟩

/-- The roles that a run reports on. -/
def Options.reported (o : Options) : List Role :=
  if o.roles = [] then Role.all else o.roles

/-- A report as it is printed. -/
def printed (format : Format) (r : Report) : String :=
  match format with
  | .json => r.toJson ++ "\n"
  | .text => r.toText

/-- The form of the report: the flag comes before the configuration. -/
def Options.format (o : Options) (config : Config) : Format :=
  if o.json then .json else config.format

/-- A run of the program whose executable lies in `exeDir`, by ways to read documents and filters. -/
def runWith (readers : Readers) (host : Host m) (env : Environment) (exeDir : Path) (o : Options) :
    m Outcome := do
  let base ← resolveBase host exeDir
  let table := Table.unix (.ofPackaging base exeDir env.packaging)
  let roaming ← resolve host.holds host.toFileSystem table .roamingData
  let (config, warnings) ← configure readers.settings host roaming.result
  let shown := threshold readers.filter (env.filter.bind Text.Utf8.decode) o.debug config.logLevel
  let opening := openingEvents o.debug warnings
  let ensured ← ensureAll host.toFileSystem o.ensure
  match ensured.failure with
  | some e =>
    let failure := Failure.path e
    return {
      exitCode := 1
      stdout := ""
      failure := some failure
      warnings := warnings
      report := .none
      events := opening ++ ensured.events ++ [failureEvent failure]
      threshold := shown }
  | .none =>
    let tries ← Report.attempts host.holds host.toFileSystem table o.reported
    let report := Report.ofAttempts exeDir base tries
    return {
      exitCode := if report.hasErrors then 1 else 0
      stdout := printed (o.format config) report
      failure := .none
      warnings := warnings
      report := some report
      events := opening ++ ensured.events ++ Report.events exeDir base tries
      threshold := shown }

end PortableLayout.CommandLine
