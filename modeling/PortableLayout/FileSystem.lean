import PortableLayout.Failure

/-!
# File systems and dialogues

A file system answers two calls: whether a path exists, and to create one directory. What stands
behind it is left open: the calls run in any monad, so that a store kept in memory, a whole directory
tree and the machine's own disk are file systems alike. A `Host` can also be asked about files.

A *dialogue* is a computation that makes such calls one at a time and goes on from each answer. It
can be run against any file system (`Dialogue.run`), with a record of the calls and their answers
(`Dialogue.record`), or be stepped through next to other dialogues that share a store.
-/

set_option autoImplicit false

namespace PortableLayout

/-- The calls that creating directories takes. -/
structure FileSystem (m : Type → Type) where
  /-- Whether there is something at a path, links followed. -/
  probe : Path → m (Except IoError Bool)
  /-- Creates the directory at a path; its parent has to be there. -/
  createDir : Path → m (Except IoError Unit)

/-- The machine that a program runs on: its file system, and the reading of files. -/
structure Host (m : Type → Type) extends FileSystem m where
  /-- Whether there is a directory at a path, links followed. -/
  isDir : Path → m Bool
  /-- The number of bytes of what is at a path, links followed. -/
  fileSize : Path → m (Except IoError Nat)
  /-- The content of the file at a path, links followed. -/
  readFile : Path → m (Except IoError Bytes)

/-- Whether there is something at a path; a failing probe counts as nothing. -/
def FileSystem.holds {m : Type → Type} [Monad m] (fs : FileSystem m) (p : Path) : m Bool := do
  match ← fs.probe p with
  | .ok found => pure found
  | .error _ => pure false

/-- One call together with the answer it got. -/
inductive Exchange where
  | probed (p : Path) (answer : Except IoError Bool)
  | created (p : Path) (answer : Except IoError Unit)

/-- A computation that talks to a file system call by call. -/
inductive Dialogue (α : Type) where
  /-- Nothing more is asked. -/
  | done (result : α)
  /-- Asks whether `p` exists and goes on from the answer. -/
  | probe (p : Path) (next : Except IoError Bool → Dialogue α)
  /-- Asks for the directory `p` and goes on from the answer. -/
  | createDir (p : Path) (next : Except IoError Unit → Dialogue α)

/-- A result and the exchanges that led to it, in order. -/
structure Recorded (α : Type) where
  result : α
  exchanges : List Exchange

namespace Dialogue

variable {α : Type} {m : Type → Type} [Monad m]

/-- Runs a dialogue against a file system and keeps the exchanges. -/
def record (fs : FileSystem m) : Dialogue α → m (Recorded α)
  | done a => pure ⟨a, []⟩
  | probe p next => do
    let answer ← fs.probe p
    let later ← (next answer).record fs
    pure ⟨later.result, .probed p answer :: later.exchanges⟩
  | createDir p next => do
    let answer ← fs.createDir p
    let later ← (next answer).record fs
    pure ⟨later.result, .created p answer :: later.exchanges⟩

/-- Runs a dialogue against a file system. -/
def run (fs : FileSystem m) : Dialogue α → m α
  | done a => pure a
  | probe p next => do
    let answer ← fs.probe p
    (next answer).run fs
  | createDir p next => do
    let answer ← fs.createDir p
    (next answer).run fs

/-- Keeping the exchanges does not change what a dialogue does. -/
theorem record_map_result [LawfulMonad m] (fs : FileSystem m) (d : Dialogue α) :
    Recorded.result <$> d.record fs = d.run fs := by
  induction d with
  | done a => simp [record, run]
  | probe p next ih =>
    simp only [record, run, map_bind, map_pure]
    congr 1
    funext answer
    rw [← ih answer, map_eq_pure_bind]
  | createDir p next ih =>
    simp only [record, run, map_bind, map_pure]
    congr 1
    funext answer
    rw [← ih answer, map_eq_pure_bind]

end Dialogue

end PortableLayout
