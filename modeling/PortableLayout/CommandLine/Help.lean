/-!
# What the program says about itself
-/

set_option autoImplicit false

namespace PortableLayout.CommandLine

/-- The name of the program. -/
def programName : String := "portable-dirs"

/-- The version of the program. -/
def programVersion : String := "1.0.0"

/-- The answer to a question for the version. -/
def versionText : String :=
  programName ++ " " ++ programVersion ++ "\n"

/-- Lines with their line ends. -/
def lines (ls : List String) : String :=
  String.join (ls.map (· ++ "\n"))

/-- The answer to a question for help in short. -/
def shortHelp : String :=
  lines [
    "Portable-mode directory resolution: redirects config, data and cache directories into a " ++
      "private tree beside the executable",
    "",
    "Usage: portable-dirs [OPTIONS]",
    "",
    "Options:",
    "  -r, --role <ROLES>     Only resolve these roles (repeatable). Defaults to all of them " ++
      "[possible values: roaming, personal, cache, resources]",
    "  -e, --ensure <ENSURE>  Also ensure these directories exist before reporting (repeatable)",
    "      --json             Print the report as JSON (overrides [report] format)",
    "  -d, --debug            Enable debug logging (equivalent to RUST_LOG=debug)",
    "  -h, --help             Print help (see more with '--help')",
    "  -V, --version          Print version"]

/-- The answer to a question for help in full. -/
def fullHelp : String :=
  lines [
    "portable-dirs - show where a portable-mode application keeps its data.",
    "",
    "Resolves (and creates, where applicable) the roaming, personal, cache and resource " ++
      "directories beside this executable and prints them.",
    "",
    "Usage: portable-dirs [OPTIONS]",
    "",
    "Options:",
    "  -r, --role <ROLES>",
    "          Only resolve these roles (repeatable). Defaults to all of them",
    "          ",
    "          [possible values: roaming, personal, cache, resources]",
    "",
    "  -e, --ensure <ENSURE>",
    "          Also ensure these directories exist before reporting (repeatable)",
    "",
    "      --json",
    "          Print the report as JSON (overrides [report] format)",
    "",
    "  -d, --debug",
    "          Enable debug logging (equivalent to RUST_LOG=debug)",
    "",
    "  -h, --help",
    "          Print help (see a summary with '-h')",
    "",
    "  -V, --version",
    "          Print version"]

end PortableLayout.CommandLine
