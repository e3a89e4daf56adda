import PortableLayout.CommandLine.Phases
import PortableLayout.Config.Document
import PortableLayout.Log.Directives

/-!
# The run of the command-line program

What a run leaves open is given here: configuration documents are TOML texts, and log filters are
lists of directives.
-/

set_option autoImplicit false

namespace PortableLayout.CommandLine

/-- The ways in which the program reads documents and filters. -/
def readers : Readers where
  settings := Settings.ofText
  filter := Log.Threshold.ofFilter

/-- A run of the program whose executable lies in `exeDir`. -/
def run {m : Type → Type} [Monad m] (host : Host m) (env : Environment) (exeDir : Path) (o : Options) :
    m Outcome :=
  runWith readers host env exeDir o

end PortableLayout.CommandLine
