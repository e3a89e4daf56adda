import PortableLayout.CommandLine.Phases
import PortableLayout.Proofs.Disk.Reading
import PortableLayout.Proofs.Report.Lines

/-!
# What a run of the program comes to

A run goes through three phases on one disk: the roaming role is resolved and the configuration loaded, the
requested directories are made to exist, and the report is put together. The second phase decides whether
there is a third. Its walks are taken one by one (`Disk.Ensures`): either all of them get to their ends or one
is the first that fails (`Disk.ensures_or_fails`), and `run_outcome` says what a run is in both cases.
-/

set_option autoImplicit false

namespace PortableLayout

namespace Disk

end Disk

namespace CommandLine

variable {d d' : Disk} {p : Path} {ps : List Path} {n : Nat} {failure : PathError}

/-! ## Making directories exist -/

/-- Taking the configuration from the roaming directory changes nothing on the disk. -/
theorem readsOnly_configure (read : Settings.Reader) (roaming : Except PathError Resolved) :
    ReadsOnly (configure read Disk.host roaming) := by
  cases roaming with
  | error e => exact .pure _
  | ok r => exact Disk.readsOnly_load read r.path

section

variable (readers : Readers) (env : Environment) (exeDir : Path) (o : Options) (d : Disk)

/-- The table that a run looks its roles up in. -/
def tableOf : Table :=
  .unix (.ofPackaging (resolveBase Disk.host exeDir d).1 exeDir env.packaging)

/-- What the roaming role resolves to before anything else, and the disk after that. -/
def roamingOf : Attempt × Disk :=
  resolve Disk.host.holds Disk.fileSystem (tableOf env exeDir d) .roamingData
    (resolveBase Disk.host exeDir d).2

/-- The configuration of a run. -/
def configOf : Config :=
  (configure readers.settings Disk.host (roamingOf env exeDir d).1.result (roamingOf env exeDir d).2).1.1

/-- A run ends with the first directory that cannot be made to exist, or else with its report. -/
theorem run_cases :
    let ensured := ensureAll Disk.fileSystem o.ensure (roamingOf env exeDir d).2
    let tries := Report.attempts Disk.host.holds Disk.fileSystem (tableOf env exeDir d) o.reported ensured.2
    let report := Report.ofAttempts exeDir (resolveBase Disk.host exeDir d).1 tries.1
    let r := runWith readers Disk.host env exeDir o d
    (∃ failure, ensured.1.failure = some failure ∧ r.1.exitCode = 1 ∧ r.1.stdout = "" ∧
      r.1.failure = some (.path failure) ∧ r.1.report = none ∧ r.2 = ensured.2) ∨
    (ensured.1.failure = none ∧ r.1.exitCode = (if report.hasErrors then 1 else 0) ∧
      r.1.stdout = printed (o.format (configOf readers env exeDir d)) report ∧ r.1.failure = none ∧
      r.1.report = some report ∧ r.2 = tries.2) := by
  intro ensured tries report r
  obtain ⟨warnings, hconfig⟩ : ∃ warnings, configure readers.settings Disk.host (roamingOf env exeDir d).1.result
      (roamingOf env exeDir d).2 = ((configOf readers env exeDir d, warnings), (roamingOf env exeDir d).2) :=
    ⟨_, Prod.ext rfl (readsOnly_configure _ _ _)⟩
  -- The first three steps are those that the names stand for; loading the configuration leaves the disk.
  have hrun : r = runWith readers Disk.host env exeDir o d := rfl
  simp only [roamingOf, tableOf] at hconfig
  rw [runWith, bind_apply, bind_apply, bind_apply, hconfig] at hrun
  dsimp only at hrun
  rw [bind_apply] at hrun
  have hensured : ensureAll Disk.fileSystem o.ensure (roamingOf env exeDir d).2 = ensured := rfl
  simp only [roamingOf, tableOf] at hensured
  rw [hensured] at hrun
  cases hfailure : ensured.1.failure with
  | some failure =>
    rw [hfailure] at hrun
    rw [hrun]
    exact .inl ⟨failure, rfl, rfl, rfl, rfl, rfl, rfl⟩
  | none =>
    rw [hfailure] at hrun
    rw [hrun]
    exact .inr ⟨rfl, rfl, rfl, rfl, rfl, rfl⟩

end

end CommandLine

end PortableLayout
