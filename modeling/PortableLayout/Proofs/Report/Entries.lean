import PortableLayout.Proofs.Walk.Steps
import PortableLayout.Report

/-!
# Entries of a report

An entry has either a path or an error, as the attempt came out that it stands for. A report has the entries
of its attempts in their order, and the attempts are those of the roles in theirs.
-/

set_option autoImplicit false

namespace PortableLayout

namespace Entry

variable (role : Role) (result : Except PathError Resolved)

/-- An entry is that of its role. -/
theorem role_ofResult : (ofResult role result).role = role := by
  cases result with
  | ok r => rfl
  | error e => rfl

variable {role result}

/-- An entry has an error exactly if its role failed. -/
theorem isSome_error_ofResult :
    (ofResult role result).error.isSome = true ↔ ∃ failure, result = .error failure := by
  cases result with
  | ok r => simp [ofResult]
  | error failure => simp [ofResult]

/-- An entry has a path exactly if it has no error. -/
theorem isSome_path_ofResult :
    (ofResult role result).path.isSome = true ↔ (ofResult role result).error = none := by
  cases result with
  | ok r => simp [ofResult]
  | error failure => simp [ofResult]

/-- An entry says that its directory was made only if resolving the role says so, and then it has the path. -/
theorem ensured_ofResult (h : (ofResult role result).ensured = true) :
    ∃ r, result = .ok r ∧ r.ensured = true ∧ (ofResult role result).path = some r.path.reported := by
  cases result with
  | ok r => exact ⟨r, rfl, h, rfl⟩
  | error failure => cases h

end Entry

namespace Report

variable (exeDir baseDir : Path) (tries : List (Role × Attempt))

/-- The entries have the roles of the attempts, in their order. -/
theorem roles_ofAttempts : (ofAttempts exeDir baseDir tries).entries.map Entry.role = tries.map Prod.fst := by
  rw [ofAttempts, List.map_map]
  exact List.map_congr_left fun attempt _ => Entry.role_ofResult attempt.1 attempt.2.result

/-- There is one attempt for each role, in the order of the roles. -/
theorem map_fst_attempts {σ : Type} (look : Path → StateM σ Bool) (fs : FileSystem (StateM σ)) (t : Table)
    (roles : List Role) (s : σ) : (attempts look fs t roles s).1.map Prod.fst = roles := by
  induction roles generalizing s with
  | nil => rfl
  | cons role roles ih =>
    rw [attempts, bind_apply, bind_apply]
    exact congrArg (role :: ·) (ih _)

end Report

end PortableLayout
